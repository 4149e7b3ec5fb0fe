import OnoSendai.Command.Kept

/-!
# What a context frame fills in

Inside an entered object a command is narrowed: the frame of the object fills in an argument the
user did not write. It fills the first parameter the object has a handle for, or the parameter that
is named after the target of the frame, or a condition on a field of the schema; and a command that
can be narrowed in none of these ways is refused.

A frame never overrides an argument. But binding has filled in the declared defaults before, and a
default is an argument like any other there; so is what an earlier frame filled in.
-/

namespace OnoSendai.Command

open BoundArguments List

variable {E : Type}

/-! ### Frames -/

/-- What sort of frame a frame is. -/
inductive FrameKind
  | object
  | filesystem
  | link
deriving DecidableEq

/-- An entered object, directory or link. -/
structure ContextFrame where
  kind : FrameKind
  target : String
  identity : Value
  handles : List (String × Value)

/-- The value the entered object answers to under the name of a parameter. -/
def ContextFrame.handle (frame : ContextFrame) (parameter : String) : Option Value :=
  frame.handles.findSome? fun handle => if handle.1 = parameter then some handle.2 else none

/-- The fields of a schema, and those that make up the identity of its objects. -/
structure ProviderSchema where
  fields : List String
  identity : List String

/-- What a provider answers, and with which schemas. -/
structure Provider where
  targets : List String
  schemas : List ProviderSchema

/-- The providers that claim a target, in the order of their registration. -/
def forTarget (providers : List Provider) (target : String) : List Provider :=
  providers.filter (target ∈ ·.targets)

/-- The identity fields of the schemas a target is answered with. -/
def identityFields (providers : List Provider) (target : String) : List String :=
  ((forTarget providers target).flatMap (·.schemas)).flatMap (·.identity)

namespace BoundArguments

/-- The arguments with a selector bound, unless it is bound already. -/
def withSelector (arguments : BoundArguments E) (name : String) (v : Value) : BoundArguments E :=
  if (findBinding arguments.selectors name).isNone then
    { arguments with selectors := arguments.selectors ++ [(name, .value v)] }
  else
    arguments

/-- The arguments with an option bound, unless it is bound already. -/
def withOption (arguments : BoundArguments E) (name : String) (v : Value) : BoundArguments E :=
  if (findBinding arguments.options name).isNone then
    { arguments with options := arguments.options ++ [(name, .value v)] }
  else
    arguments

/-- The arguments with a condition on a field. -/
def withAmbient (arguments : BoundArguments E) (field : String) (v : Value) : BoundArguments E :=
  { arguments with ambient := arguments.ambient ++ [(field, v)] }

end BoundArguments

section Narrow

variable (showValue : Value → String) (contract : CommandContract) (providers : List Provider)
  (target : String)

/-- The error for a command a frame cannot narrow. -/
def cannotNarrow (frame : ContextFrame) : ErrorValue where
  code := .other "resolve.target_not_found"
  message := "\x60" ++ contract.spelling ++ "\x60 has no meaning inside the context \x60" ++
    frame.target ++ " " ++ showValue frame.identity ++ "\x60"

/-- The first of some parameters the entered object has a handle for. -/
def firstHandled (frame : ContextFrame) (specs : List ParameterSpec) : Option (String × Value) :=
  specs.findSome? fun spec => (frame.handle spec.name).map fun v => (spec.name, v)

/-- The arguments with what a frame contributes. -/
def contribute (frame : ContextFrame) (arguments : BoundArguments E) :
    Except ErrorValue (BoundArguments E) :=
  if frame.target = target then
    match firstHandled frame contract.selectors with
    | some (name, v) => .ok (arguments.withSelector name v)
    | none =>
      match firstHandled frame contract.options with
      | some (name, v) => .ok (arguments.withOption name v)
      | none =>
        let identity := (identityFields providers target).filterMap fun field =>
          (frame.handle field).map fun v => (field, v)
        if identity.isEmpty then .error (cannotNarrow showValue contract frame)
        else .ok (identity.foldl (fun arguments entry => arguments.withAmbient entry.1 entry.2)
          arguments)
  else if contract.selectors.any (·.name = frame.target) then
    .ok (arguments.withSelector frame.target frame.identity)
  else if contract.options.any (·.name = frame.target) then
    .ok (arguments.withOption frame.target frame.identity)
  else if ((forTarget providers target).flatMap (·.schemas)).any (frame.target ∈ ·.fields) then
    .ok (arguments.withAmbient frame.target frame.identity)
  else
    .error (cannotNarrow showValue contract frame)

/-- One frame of the loop over the frames. -/
def narrowStep (arguments : BoundArguments E) (narrowed : Option (BoundArguments E))
    (frame : ContextFrame) : Except ErrorValue (Option (BoundArguments E)) :=
  if frame.kind ≠ .object then .ok narrowed
  else
    (contribute showValue contract providers target frame (narrowed.getD arguments)).map some

/-- The arguments the frames fill in for a command, or none when no frame contributes. -/
def narrow (contract : CommandContract) (frames : List ContextFrame)
    (arguments : BoundArguments E) : Except ErrorValue (Option (BoundArguments E)) :=
  match contract.target with
  | none => .ok none
  | some target =>
    if contract.providerCapability.isNone then .ok none
    else frames.foldlM (narrowStep showValue contract providers target arguments) none

end Narrow

/-! ### What a frame fills -/

/-- What a frame fills: a parameter, or conditions on fields. -/
inductive Filling
  | parameter (slot : Slot) (v : Value)
  | ambient (entries : List (String × Value))

/-- What a frame fills in for a command. -/
def filling (contract : CommandContract) (providers : List Provider) (target : String)
    (frame : ContextFrame) : Option Filling :=
  if frame.target = target then
    match firstHandled frame contract.selectors with
    | some (name, v) => some (.parameter (.selector name) v)
    | none =>
      match firstHandled frame contract.options with
      | some (name, v) => some (.parameter (.option name) v)
      | none =>
        let identity := (identityFields providers target).filterMap fun field =>
          (frame.handle field).map fun v => (field, v)
        if identity.isEmpty then none else some (.ambient identity)
  else if contract.selectors.any (·.name = frame.target) then
    some (.parameter (.selector frame.target) frame.identity)
  else if contract.options.any (·.name = frame.target) then
    some (.parameter (.option frame.target) frame.identity)
  else if ((forTarget providers target).flatMap (·.schemas)).any (frame.target ∈ ·.fields) then
    some (.ambient [(frame.target, frame.identity)])
  else
    none

/-- The arguments with something filled in. -/
def BoundArguments.fill (arguments : BoundArguments E) : Filling → BoundArguments E
  | .parameter (.selector name) v => arguments.withSelector name v
  | .parameter (.option name) v => arguments.withOption name v
  | .ambient entries => { arguments with ambient := arguments.ambient ++ entries }

variable {v : Value}

section Filling

variable {showValue : Value → String} {contract : CommandContract} {providers : List Provider}
  {target : String} {frame : ContextFrame} {arguments : BoundArguments E}

theorem foldl_withAmbient (entries : List (String × Value)) (arguments : BoundArguments E) :
    entries.foldl (fun arguments entry => arguments.withAmbient entry.1 entry.2) arguments =
      arguments.fill (.ambient entries) := by
  induction entries generalizing arguments with
  | nil => simp [fill]
  | cons entry rest ih =>
    rw [foldl_cons, ih]
    simp [fill, withAmbient]

/-- A frame contributes what it fills. -/
theorem contribute_eq :
    contribute showValue contract providers target frame arguments =
      match filling contract providers target frame with
      | some found => .ok (arguments.fill found)
      | none => .error (cannotNarrow showValue contract frame) := by
  rw [contribute, filling]
  by_cases htarget : frame.target = target
  · rw [if_pos htarget, if_pos htarget]
    cases firstHandled frame contract.selectors with
    | some found => rfl
    | none =>
      cases firstHandled frame contract.options with
      | some found => rfl
      | none =>
        dsimp only
        rw [foldl_withAmbient]
        split_ifs <;> rfl
  · rw [if_neg htarget, if_neg htarget]
    split_ifs <;> rfl

theorem firstHandled_eq_none {specs : List ParameterSpec} (h : firstHandled frame specs = none)
    {spec : ParameterSpec} (hspec : spec ∈ specs) : frame.handle spec.name = none := by
  simpa using findSome?_eq_none_iff.1 h spec hspec

/-- A selector that is filled is declared. -/
theorem exists_selector_of_filling {name : String}
    (h : filling contract providers target frame = some (.parameter (.selector name) v)) :
    ∃ spec ∈ contract.selectors, spec.name = name := by
  rw [filling] at h
  split_ifs at h with htarget hselector
  · cases hselectors : firstHandled frame contract.selectors with
    | some found =>
      rw [hselectors] at h
      cases h
      obtain ⟨spec, hspec, hfound⟩ := exists_of_findSome?_eq_some hselectors
      cases hhandle : frame.handle spec.name with
      | none => rw [hhandle] at hfound; cases hfound
      | some v =>
        rw [hhandle] at hfound
        cases hfound
        exact ⟨spec, hspec, rfl⟩
    | none =>
      rw [hselectors] at h
      cases hoptions : firstHandled frame contract.options with
      | some found => rw [hoptions] at h; cases h
      | none =>
        rw [hoptions] at h
        dsimp only at h
        split_ifs at h
        cases h
  · cases h
    simpa using hselector
  all_goals cases h

/-- Conditions that are filled are on fields that no selector is named after. -/
theorem ne_of_filling_ambient {entries : List (String × Value)}
    (h : filling contract providers target frame = some (.ambient entries)) :
    entries ≠ [] ∧ ∀ entry ∈ entries, ∀ spec ∈ contract.selectors, spec.name ≠ entry.1 := by
  rw [filling] at h
  split_ifs at h with htarget hselector
  · cases hselectors : firstHandled frame contract.selectors with
    | some found => rw [hselectors] at h; cases h
    | none =>
      rw [hselectors] at h
      cases hoptions : firstHandled frame contract.options with
      | some found => rw [hoptions] at h; cases h
      | none =>
        rw [hoptions] at h
        dsimp only at h
        split_ifs at h with hidentity
        cases h
        refine ⟨by simpa using hidentity, fun entry hentry spec hspec hname => ?_⟩
        obtain ⟨field, -, hfield⟩ := mem_filterMap.1 hentry
        -- A field of that name has no handle, since no selector has one.
        cases hhandle : frame.handle field with
        | none => rw [hhandle] at hfield; cases hfield
        | some v =>
          rw [hhandle] at hfield
          cases hfield
          have hfield : spec.name = field := hname
          rw [← hfield, firstHandled_eq_none hselectors hspec] at hhandle
          cases hhandle
  · cases h
  · cases h
  · cases h
    refine ⟨cons_ne_nil _ _, fun entry hentry spec hspec hname => hselector ?_⟩
    rw [mem_singleton.1 hentry] at hname
    exact any_eq_true.2 ⟨spec, hspec, by simpa using hname⟩

end Filling

/-! ### The frames together -/

/-- The name of a parameter. -/
def Slot.name : Slot → String
  | selector name | option name => name

/-- The bindings of the kind of a parameter. -/
def BoundArguments.entries (arguments : BoundArguments E) : Slot → List (String × Binding E)
  | .selector _ => arguments.selectors
  | .option _ => arguments.options

/-- What a filling is for a parameter. -/
def Filling.at' (slot : Slot) : Filling → Option Value
  | parameter filled v => if filled = slot then some v else none
  | ambient _ => none

/-- The conditions a filling is. -/
def Filling.conditions : Filling → List (String × Value)
  | parameter _ _ => []
  | ambient entries => entries

/-- The arguments with everything filled in, in order. -/
def BoundArguments.fillAll (arguments : BoundArguments E) (founds : List Filling) :
    BoundArguments E :=
  founds.foldl fill arguments

/-- What the object frames among some frames fill. -/
def fillings (contract : CommandContract) (providers : List Provider) (target : String)
    (frames : List ContextFrame) : List Filling :=
  (frames.filter (·.kind = .object)).filterMap (filling contract providers target)

/-- What the first of some fillings for a parameter is. -/
def firstAt (founds : List Filling) (slot : Slot) : Option Value :=
  founds.findSome? (·.at' slot)

section Fill

variable {arguments : BoundArguments E} {slot : Slot} {binding : Binding E}

theorem binding_eq_findBinding : arguments.binding slot =
    findBinding (arguments.entries slot) slot.name := by
  cases slot <;> rfl

/-- Some bindings with a name bound, unless it is bound already. -/
def addUnbound (entries : List (String × Binding E)) (name : String) (v : Value) :
    List (String × Binding E) :=
  if (findBinding entries name).isNone then entries ++ [(name, .value v)] else entries

theorem mem_addUnbound {entries : List (String × Binding E)} {name name' : String} :
    (name', binding) ∈ addUnbound entries name v ↔
      (name', binding) ∈ entries ∨
        findBinding entries name' = none ∧ name = name' ∧ .value v = binding := by
  rw [addUnbound]
  split_ifs with hnone
  · have hnone : findBinding entries name = none := by simpa using hnone
    rw [mem_append, mem_singleton, Prod.mk.injEq]
    refine or_congr_right ⟨fun ⟨hname, hvalue⟩ => ⟨hname ▸ hnone, hname.symm, hvalue.symm⟩,
      fun ⟨_, hname, hvalue⟩ => ⟨hname.symm, hvalue.symm⟩⟩
  · refine ⟨.inl, fun h => h.elim id ?_⟩
    rintro ⟨hnone', rfl, -⟩
    exact absurd (by simpa using hnone') hnone

theorem findBinding_addUnbound (entries : List (String × Binding E)) (name name' : String)
    (v : Value) :
    findBinding (addUnbound entries name v) name' =
      (findBinding entries name').or (if name = name' then some (.value v) else none) := by
  rw [addUnbound]
  split_ifs with hnone hname hname
  · rw [findBinding_append]
    simp [findBinding, hname]
  · rw [findBinding_append]
    simp [findBinding, hname]
  · subst hname
    obtain ⟨bound, hbound⟩ := Option.ne_none_iff_exists'.1 (by simpa using hnone)
    rw [hbound]
    rfl
  · simp

theorem selectors_withSelector (name : String) (v : Value) :
    (arguments.withSelector name v).selectors = addUnbound arguments.selectors name v := by
  rw [withSelector, addUnbound]
  split_ifs <;> rfl

theorem options_withOption (name : String) (v : Value) :
    (arguments.withOption name v).options = addUnbound arguments.options name v := by
  rw [withOption, addUnbound]
  split_ifs <;> rfl

theorem options_withSelector (name : String) (v : Value) :
    (arguments.withSelector name v).options = arguments.options := by
  rw [withSelector]
  split_ifs <;> rfl

theorem selectors_withOption (name : String) (v : Value) :
    (arguments.withOption name v).selectors = arguments.selectors := by
  rw [withOption]
  split_ifs <;> rfl

/-- What is filled in for a parameter of the other kind, or as a condition, leaves the bindings of a
kind; and what is filled in for one of the kind is added unless its name is bound. -/
theorem entries_fill (found : Filling) :
    found.at' slot = none ∧ (arguments.fill found).entries slot = arguments.entries slot ∨
      ∃ filled v, found = .parameter filled v ∧
        (filled.name = slot.name ↔ filled = slot) ∧
        (arguments.fill found).entries slot =
          addUnbound (arguments.entries slot) filled.name v := by
  cases found with
  | ambient entries => exact .inl ⟨rfl, by cases slot <;> rfl⟩
  | parameter filled v =>
    cases filled with
    | selector name =>
      cases slot with
      | selector name' =>
        exact .inr ⟨_, _, rfl, by simp [Slot.name], selectors_withSelector name v⟩
      | option name' => exact .inl ⟨by simp [Filling.at'], options_withSelector name v⟩
    | option name =>
      cases slot with
      | selector name' => exact .inl ⟨by simp [Filling.at'], selectors_withOption name v⟩
      | option name' => exact .inr ⟨_, _, rfl, by simp [Slot.name], options_withOption name v⟩

theorem at_parameter {filled : Slot} :
    (Filling.parameter filled v).at' slot = if filled = slot then some v else none :=
  rfl

theorem binding_fill (found : Filling) :
    (arguments.fill found).binding slot =
      (arguments.binding slot).or ((found.at' slot).map .value) := by
  rw [binding_eq_findBinding, binding_eq_findBinding]
  rcases entries_fill found with ⟨hnone, hentries⟩ | ⟨filled, v, rfl, hname, hentries⟩
  · rw [hentries, hnone]
    simp
  · rw [hentries, findBinding_addUnbound, at_parameter]
    simp only [hname]
    split_ifs <;> rfl

theorem mem_entries_fill (found : Filling) :
    (slot.name, binding) ∈ (arguments.fill found).entries slot ↔
      (slot.name, binding) ∈ arguments.entries slot ∨
        arguments.binding slot = none ∧ (found.at' slot).map .value = some binding := by
  rw [binding_eq_findBinding]
  rcases entries_fill found with ⟨hnone, hentries⟩ | ⟨filled, v, rfl, hname, hentries⟩
  · rw [hentries, hnone]
    simp
  · rw [hentries, mem_addUnbound, at_parameter, hname]
    split_ifs with hslot <;> simp [hslot]

/-- The first filling for a parameter counts, and it counts where the parameter is not bound. -/
theorem mem_entries_fillAll (founds : List Filling) :
    (slot.name, binding) ∈ (arguments.fillAll founds).entries slot ↔
      (slot.name, binding) ∈ arguments.entries slot ∨
        arguments.binding slot = none ∧ (firstAt founds slot).map .value = some binding := by
  induction founds generalizing arguments with
  | nil => simp [fillAll, firstAt]
  | cons found rest ih =>
    have hstep : arguments.fillAll (found :: rest) = (arguments.fill found).fillAll rest := rfl
    have hfirst : firstAt (found :: rest) slot = (found.at' slot).or (firstAt rest slot) := by
      rw [firstAt, findSome?_cons]
      cases found.at' slot <;> rfl
    rw [hstep, ih, mem_entries_fill, binding_fill, hfirst]
    cases found.at' slot with
    | none => simp
    | some v => cases arguments.binding slot <;> simp

theorem ambient_fill (found : Filling) :
    (arguments.fill found).ambient = arguments.ambient ++ found.conditions := by
  cases found with
  | ambient entries => rfl
  | parameter filled v =>
    rw [Filling.conditions, append_nil]
    cases filled with
    | selector name =>
      rw [fill, withSelector]
      split_ifs <;> rfl
    | option name =>
      rw [fill, withOption]
      split_ifs <;> rfl

theorem ambient_fillAll (founds : List Filling) :
    (arguments.fillAll founds).ambient = arguments.ambient ++ founds.flatMap (·.conditions) := by
  induction founds generalizing arguments with
  | nil => simp [fillAll]
  | cons found rest ih =>
    have hstep : arguments.fillAll (found :: rest) = (arguments.fill found).fillAll rest := rfl
    rw [hstep, ih, ambient_fill, flatMap_cons, append_assoc]

end Fill

section Run

variable {showValue : Value → String} {contract : CommandContract} {providers : List Provider}
  {target : String} {frames : List ContextFrame} {arguments : BoundArguments E}

/-- The loop over the frames fills in what the object frames fill, each of which fills something. -/
theorem foldlM_narrowStep {narrowed narrowed' : Option (BoundArguments E)}
    (h : frames.foldlM (narrowStep showValue contract providers target arguments) narrowed =
      .ok narrowed') :
    (∀ frame ∈ frames, frame.kind = .object → (filling contract providers target frame).isSome) ∧
      narrowed'.getD arguments =
        (narrowed.getD arguments).fillAll (fillings contract providers target frames) := by
  induction frames generalizing narrowed with
  | nil =>
    cases h
    exact ⟨fun _ hframe => absurd hframe not_mem_nil, rfl⟩
  | cons frame rest ih =>
    rw [foldlM_cons] at h
    obtain ⟨next, hnext, h⟩ := ok_of_bind h
    obtain ⟨hfilled, hrest⟩ := ih h
    rw [narrowStep] at hnext
    split_ifs at hnext with hkind
    · cases hnext
      refine ⟨forall_mem_cons.2 ⟨fun hobject => absurd hobject hkind, hfilled⟩, ?_⟩
      rw [hrest, fillings, fillings, filter_cons_of_neg (by simpa using hkind)]
    · rw [contribute_eq] at hnext
      have hkind : frame.kind = .object := by simpa using hkind
      cases hfound : filling contract providers target frame with
      | none => rw [hfound] at hnext; cases hnext
      | some found =>
        rw [hfound] at hnext
        cases hnext
        refine ⟨forall_mem_cons.2 ⟨fun _ => by rw [hfound]; rfl, hfilled⟩, ?_⟩
        rw [hrest, fillings, fillings, filter_cons_of_pos (by simpa using hkind),
          filterMap_cons_some hfound]
        rfl

theorem getD_of_narrow {narrowed : Option (BoundArguments E)} (htarget : contract.target = some target)
    (hcapability : contract.providerCapability.isSome)
    (h : narrow showValue providers contract frames arguments = .ok narrowed) :
    (∀ frame ∈ frames, frame.kind = .object → (filling contract providers target frame).isSome) ∧
      narrowed.getD arguments = arguments.fillAll (fillings contract providers target frames) := by
  have hsome : contract.providerCapability.isNone = false := by
    rw [Option.isNone_eq_false_iff, hcapability]
  simp only [narrow, htarget, hsome] at h
  exact foldlM_narrowStep h

/-! ### Frames that are heard -/

/-- The query has a selector or an option with a value for a parameter. -/
def Query.Carries (query : Query) : Slot → Value → Prop
  | .selector name, v => (name, v) ∈ query.selectors
  | .option name, v => (name, v) ∈ query.options

/-- The arguments have a selector or an option, or a condition, with a value for a parameter. -/
def BoundArguments.Carries (arguments : BoundArguments E) : Slot → Value → Prop
  | .selector name, v => (name, .value v) ∈ arguments.selectors ∨ (name, v) ∈ arguments.ambient
  | .option name, v => (name, .value v) ∈ arguments.options

/-- What a frame fills is in the query, or it is a parameter the user wrote. -/
def Heard (typed : Slot → Prop) (query : Query) : Filling → Prop
  | .parameter slot v => typed slot ∨ query.Carries slot v
  | .ambient entries => entries ≠ [] ∧ ∀ entry ∈ entries, entry ∈ query.selectors

/-- Nothing but the user stands in the way of what fills a parameter: the user wrote it, the
arguments have the same value for it, or it is not bound and the first frame that fills it fills it
with that value. -/
def Unopposed (typed : Slot → Prop) (arguments : BoundArguments E) (founds : List Filling)
    (slot : Slot) (v : Value) : Prop :=
  typed slot ∨ arguments.Carries slot v ∨ arguments.binding slot = none ∧
    firstAt founds slot = some v

theorem mem_boundValues {entries : List (String × Binding E)} {name : String} :
    (name, v) ∈ boundValues entries ↔ (name, .value v) ∈ entries := by
  rw [boundValues, mem_filterMap]
  constructor
  · rintro ⟨⟨name', binding⟩, hentry, hvalue⟩
    cases binding with
    | value v' => cases hvalue; exact hentry
    | expressions written => cases hvalue
  · intro hentry
    exact ⟨_, hentry, rfl⟩

theorem carries_query {query : Query} (h : contract.query arguments = .ok query) {slot : Slot} :
    query.Carries slot v ↔ arguments.Carries slot v := by
  rw [CommandContract.query] at h
  cases htarget : contract.target with
  | none => rw [htarget] at h; cases h
  | some target =>
    rw [htarget] at h
    cases h
    cases slot with
    | selector name =>
      exact mem_append.trans (or_congr_left mem_boundValues)
    | option name => exact mem_boundValues

theorem ambient_subset_query {query : Query} (h : contract.query arguments = .ok query) :
    arguments.ambient ⊆ query.selectors := by
  rw [CommandContract.query] at h
  cases htarget : contract.target with
  | none => rw [htarget] at h; cases h
  | some target =>
    rw [htarget] at h
    cases h
    exact subset_append_right _ _

theorem not_mem_conditions {frame : ContextFrame} {name : String} {v v' : Value}
    (hframe : filling contract providers target frame = some (.parameter (.selector name) v)) :
    (name, v') ∉ (fillings contract providers target frames).flatMap (·.conditions) := by
  intro hmem
  obtain ⟨spec, hspec, rfl⟩ := exists_selector_of_filling hframe
  obtain ⟨found, hfound, hentry⟩ := mem_flatMap.1 hmem
  obtain ⟨other, -, hother⟩ := mem_filterMap.1 hfound
  cases found with
  | parameter slot v => cases hentry
  | ambient entries => exact (ne_of_filling_ambient hother).2 _ hentry spec hspec rfl

/-- What the arguments have for a parameter when the frames have filled in theirs. -/
theorem carries_fillAll {frame : ContextFrame} {slot : Slot}
    (hframe : filling contract providers target frame = some (.parameter slot v)) :
    (arguments.fillAll (fillings contract providers target frames)).Carries slot v ↔
      arguments.Carries slot v ∨ arguments.binding slot = none ∧
        firstAt (fillings contract providers target frames) slot = some v := by
  have hentries := @mem_entries_fillAll E arguments slot (.value v)
    (fillings contract providers target frames)
  have hvalue : (firstAt (fillings contract providers target frames) slot).map
      (Binding.value : Value → Binding E) = some (.value v) ↔
        firstAt (fillings contract providers target frames) slot = some v := by
    cases firstAt (fillings contract providers target frames) slot <;> simp
  rw [hvalue] at hentries
  cases slot with
  | option name => exact hentries
  | selector name =>
    have hcarries : (arguments.fillAll (fillings contract providers target frames)).Carries
        (.selector name) v ↔ _ ∨ _ := Iff.rfl
    rw [hcarries, ambient_fillAll, mem_append, or_iff_left (not_mem_conditions hframe)]
    exact (or_congr_left hentries).trans or_right_comm

/-- **A frame narrows or refuses.** Where the frames have narrowed a command, every object frame is
in the query or was overridden by the user exactly when nothing but the user stands in the way of
any of them. -/
theorem forall_heard_iff (typed : Slot → Prop) {narrowed : Option (BoundArguments E)} {query : Query}
    (htarget : contract.target = some target) (hcapability : contract.providerCapability.isSome)
    (h : narrow showValue providers contract frames arguments = .ok narrowed)
    (hquery : contract.query (narrowed.getD arguments) = .ok query) :
    (∀ frame ∈ frames, frame.kind = .object →
        ∃ found, filling contract providers target frame = some found ∧ Heard typed query found) ↔
      ∀ frame ∈ frames, frame.kind = .object → ∀ slot v,
        filling contract providers target frame = some (.parameter slot v) →
        Unopposed typed arguments (fillings contract providers target frames) slot v := by
  obtain ⟨hfilled, hgetD⟩ := getD_of_narrow htarget hcapability h
  rw [hgetD] at hquery
  constructor
  · intro hheard frame hframe hobject slot v hslot
    obtain ⟨found, hfound, hheard⟩ := hheard frame hframe hobject
    obtain rfl : found = .parameter slot v := Option.some.inj (hfound.symm.trans hslot)
    exact hheard.imp_right fun hcarries => (carries_fillAll hslot).1 ((carries_query hquery).1 hcarries)
  · intro hunopposed frame hframe hobject
    obtain ⟨found, hfound⟩ := Option.isSome_iff_exists.1 (hfilled frame hframe hobject)
    refine ⟨found, hfound, ?_⟩
    cases found with
    | parameter slot v =>
      refine (hunopposed frame hframe hobject slot v hfound).imp_right fun hcarries => ?_
      exact (carries_query hquery).2 ((carries_fillAll hfound).2 hcarries)
    | ambient entries =>
      refine ⟨(ne_of_filling_ambient hfound).1, fun entry hentry => ambient_subset_query hquery ?_⟩
      rw [ambient_fillAll]
      refine mem_append_right _ (mem_flatMap.2 ⟨.ambient entries, ?_, hentry⟩)
      exact mem_filterMap.2
        ⟨frame, mem_filter.2 ⟨hframe, by simpa using hobject⟩, hfound⟩

end Run

/-! ### Two processes -/

/-- The command that inspects a process. -/
def inspectProcess : CommandContract where
  verb := "inspect"
  target := some "process"
  argumentMode := .words
  providerCapability := some "process.inspect"
  selectors :=
    [{ name := "pid", declaredType := .int, repeatable := false, optionalValue := false,
       defaultValue := none }]
  options := []

/-- The frame of a process that was entered. -/
def processFrame (pid : ℤ) : ContextFrame where
  kind := .object
  target := "process"
  identity := .int pid
  handles := [("pid", .int pid)]

/-- The arguments of `inspect process`, with some bindings of its selector. -/
def inspectArguments (selectors : List (String × Binding Unit)) : BoundArguments Unit where
  spelling := inspectProcess.spelling
  selectors := selectors
  options := []
  ambient := []
  declaredSelectors := inspectProcess.selectors
  declaredOptions := []
  directory := none

/-- The query of `inspect process` for a process. -/
def inspectQuery (pid : ℤ) : Query where
  target := "process"
  verb := "inspect"
  selectors := [("pid", .int pid)]
  options := []
  directory := none

theorem heard_process :
    inspectProcess.bind noParsers [] = .ok (inspectArguments []) ∧
      ∀ frame ∈ [processFrame 1], frame.kind = .object →
        ∃ found, filling inspectProcess [] "process" frame = some found ∧
          Heard (fun _ => False) (inspectQuery 1) found := by
  have hnarrow : narrow (fun _ => "") [] inspectProcess [processFrame 1] (inspectArguments []) =
    .ok (some (inspectArguments [("pid", .value (.int 1))])) := rfl
  refine ⟨rfl, (forall_heard_iff (fun _ => False) rfl rfl hnarrow rfl).2 ?_⟩
  intro frame hframe _ slot v hslot
  obtain rfl := mem_singleton.1 hframe
  cases hslot
  exact .inr (.inr ⟨rfl, rfl⟩)

/-- Inside the second of two processes that were entered, the query is for the first. -/
theorem not_heard_processes :
    ¬ ∀ (contract : CommandContract) (providers : List Provider) (target : String)
      (frames : List ContextFrame) (words : List (Argument Unit)) (ws : List (Writing Unit))
      (arguments : BoundArguments Unit) (narrowed : Option (BoundArguments Unit)) (query : Query),
      contract.target = some target → contract.providerCapability.isSome →
      contract.bind noParsers words = .ok arguments → contract.reading noParsers words = .ok ws →
      narrow (fun _ => "") providers contract frames arguments = .ok narrowed →
      contract.query (narrowed.getD arguments) = .ok query →
      ∀ frame ∈ frames, frame.kind = .object →
        ∃ found, filling contract providers target frame = some found ∧
          Heard (· ∈ ws.map (·.slot)) query found := by
  intro h
  obtain ⟨found, hfound, hheard⟩ := h inspectProcess [] "process" [processFrame 1, processFrame 2] []
    [] (inspectArguments []) (some (inspectArguments [("pid", .value (.int 1))])) (inspectQuery 1)
    rfl rfl rfl rfl rfl rfl (processFrame 2) (by simp) rfl
  cases hfound
  simp [Heard, Query.Carries, inspectQuery] at hheard

end OnoSendai.Command
