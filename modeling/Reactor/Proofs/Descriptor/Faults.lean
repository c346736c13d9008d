import Reactor.Descriptor.OfValue
import Reactor.Proofs.Outcome

/-!
# What the readers of a descriptor complain about

The readers look at a value that some format has read already. Each of their faults tells what is
wrong with the value. None tells that the file could not be read, or that there is no format for it.
-/

namespace Reactor

/-- Whether a fault tells what is wrong with a value, whatever file the value comes from. -/
def Fault.IsOfValue : Fault → Prop
  | noFormat | unreadable _ => False
  | _ => True

namespace Descriptor

variable {fields : Fields}

theorem failsOnly_optionalString (key : String) :
    FailsOnly Fault.IsOfValue (optionalString fields key) := by
  unfold optionalString
  split
  · exact .ok none
  · exact .ok (some _)
  · exact .error trivial

theorem failsOnly_readArtifactId : FailsOnly Fault.IsOfValue (readArtifactId fields) := by
  refine (failsOnly_optionalString "artifactId").bind fun text _ ↦ ?_
  split
  · exact .ok _
  · exact .error trivial

theorem failsOnly_readPackaging : FailsOnly Fault.IsOfValue (readPackaging fields) := by
  refine (failsOnly_optionalString "packaging").bind fun text _ ↦ ?_
  split
  · exact .ok default
  · split
    · exact .ok _
    · exact .error trivial

/-! ## The parent -/

theorem failsOnly_readParentPart (key : String) :
    FailsOnly Fault.IsOfValue (readParentPart fields key) := by
  unfold readParentPart
  split
  · exact .ok none
  · split
    · exact .ok (some _)
    · exact .error trivial

theorem failsOnly_readParent (value : Value) : FailsOnly Fault.IsOfValue (readParent value) := by
  unfold readParent
  split
  · split
    · exact .ok _
    · exact .error trivial
  · refine (failsOnly_readParentPart "artifactId").bind fun artifactId _ ↦ ?_
    split
    · exact .error trivial
    · exact (failsOnly_readParentPart "groupId").bind fun _ _ ↦
        (failsOnly_readParentPart "version").bind fun _ _ ↦
          (failsOnly_readParentPart "relativePath").bind fun _ _ ↦ .ok _
  · exact .error trivial

theorem failsOnly_readParent? : FailsOnly Fault.IsOfValue (readParent? fields) := by
  unfold readParent?
  split
  · exact .ok none
  · exact (failsOnly_readParent _).map some

/-! ## Properties and modules -/

theorem failsOnly_readPropertyList (entries : List (String × Value)) :
    FailsOnly Fault.IsOfValue (readPropertyList entries) := by
  induction entries with
  | nil => exact .ok []
  | cons entry rest ih =>
    rw [readPropertyList]
    split
    · exact ih.map _
    · exact .error trivial

theorem failsOnly_readProperties : FailsOnly Fault.IsOfValue (readProperties fields) := by
  unfold readProperties
  split
  · exact .ok ∅
  · exact (failsOnly_readPropertyList _).map SortedMap.ofList
  · exact .error trivial

theorem failsOnly_readModuleList (seen : List String) (items : List Value) :
    FailsOnly Fault.IsOfValue (readModuleList seen items) := by
  induction items generalizing seen with
  | nil => exact .ok []
  | cons value rest ih =>
    rw [readModuleList]
    split
    · exact .error trivial
    · split
      · exact .error trivial
      · exact (ih _).map _

theorem failsOnly_readModules : FailsOnly Fault.IsOfValue (readModules fields) := by
  unfold readModules
  split
  · exact .ok []
  · exact failsOnly_readModuleList [] _
  · exact .error trivial

/-! ## Plugins -/

theorem failsOnly_readSkip (id : String) (value : Value) :
    FailsOnly Fault.IsOfValue (readSkip id value) := by
  unfold readSkip
  split
  · exact .ok _
  · exact .ok true
  · exact .ok false
  · exact .error trivial

theorem failsOnly_readOptions (id : String) :
    FailsOnly Fault.IsOfValue (readOptions id fields) := by
  unfold readOptions
  split
  · exact .ok ∅
  · exact .ok _
  · exact .error trivial

theorem failsOnly_readPlugin (index : Nat) (value : Value) :
    FailsOnly Fault.IsOfValue (readPlugin index value) := by
  unfold readPlugin
  split
  · dsimp only
    split
    · exact .error trivial
    · refine (failsOnly_readOptions _).bind fun options _ ↦ ?_
      exact (FailsOnly.option_mapM fun flag _ ↦ failsOnly_readSkip _ flag).bind fun _ _ ↦ .ok _
  · exact .error trivial

theorem failsOnly_readPluginList (index : Nat) (seen : List String) (items : List Value) :
    FailsOnly Fault.IsOfValue (readPluginList index seen items) := by
  induction items generalizing index seen with
  | nil => exact .ok []
  | cons value rest ih =>
    rw [readPluginList]
    refine (failsOnly_readPlugin index value).bind fun plugin _ ↦ ?_
    split
    · exact .error trivial
    · exact (ih _ _).map _

theorem failsOnly_readPlugins : FailsOnly Fault.IsOfValue (readPlugins fields) := by
  unfold readPlugins
  split
  · exact .ok []
  · exact failsOnly_readPluginList 0 [] _
  · exact .error trivial

/-! ## The whole descriptor -/

theorem failsOnly_ofFields (globals : SortedMap String) (location : String) :
    FailsOnly Fault.IsOfValue (ofFields globals location fields) := by
  refine failsOnly_readArtifactId.bind fun artifactId _ ↦ ?_
  refine failsOnly_readPackaging.bind fun packaging _ ↦ ?_
  refine failsOnly_readParent?.bind fun parentRef _ ↦ ?_
  refine failsOnly_readProperties.bind fun declared _ ↦ ?_
  refine failsOnly_readModules.bind fun modules _ ↦ ?_
  split
  · exact .error trivial
  · refine (failsOnly_optionalString "modelVersion").bind fun modelVersion _ ↦ ?_
    refine (failsOnly_optionalString "groupId").bind fun groupId _ ↦ ?_
    refine (failsOnly_optionalString "version").bind fun version _ ↦ ?_
    exact failsOnly_readPlugins.bind fun plugins _ ↦ .ok _

/-- If a value holds no descriptor, the fault names the location and what is wrong with the
value. -/
theorem failsOnly_ofValue (globals : SortedMap String) (location : String) (value : Value) :
    FailsOnly (fun failure ↦ ∃ fault : Fault, fault.IsOfValue ∧ failure = .malformed location fault)
      (ofValue globals location value) := by
  refine FailsOnly.mapError_of_failsOnly ?_ fun fault hfault ↦
    ⟨fault, hfault, rfl⟩
  split
  · exact failsOnly_ofFields globals location
  · exact .error trivial

end Descriptor

end Reactor
