import Mathlib.Data.List.Flatten
import OnoSendai.Command.Written

/-!
# What binding keeps

A parameter is bound to what was written for it, or to its declared default. It may be written
several times, and then its writings are collapsed into one binding. But a binding holds either a
value or expressions: where a parameter is written both as words and as expressions, the expressions
are kept and the words are gone.
-/

namespace OnoSendai.Command

open List Sorted

variable {E : Type}

/-! ### What a parameter is bound to -/

/-- What a binding holds: a value, or an expression. -/
inductive Part (E : Type)
  | value (value : Value)
  | expression (expression : Expr E)

/-- What a binding holds, with the items of a list for the list. -/
def Binding.parts : Binding E → List (Part E)
  | .value (.list items) => items.map .value
  | .value v => [.value v]
  | .expressions written => written.map .expression

/-- Whether a binding is a value. -/
def Binding.isValue : Binding E → Bool
  | .value _ => true
  | .expressions _ => false

/-- Adds writings to those a parameter has. -/
def extend {β : Type} : Option (List β) → List β → Option (List β)
  | none, [] => none
  | none, more => some more
  | some written, more => some (written ++ more)

/-- The writings sorted to a parameter. -/
def writtenTo {β : Type} (entries : List (String × List β)) (name : String) : Option (List β) :=
  (entries.find? (·.1 = name)).map (·.2)

/-- The writings sorted to a parameter. -/
def Sorted.to' (sorted : Sorted E) : Slot → Option (List (Binding E))
  | .selector name => writtenTo sorted.1 name
  | .option name => writtenTo sorted.2 name

/-- What a parameter is bound to. -/
def BoundArguments.binding (arguments : BoundArguments E) : Slot → Option (Binding E)
  | .selector name => findBinding arguments.selectors name
  | .option name => findBinding arguments.options name

/-- The parameters a command declares of the kind of a slot. -/
def CommandContract.specsAt (contract : CommandContract) : Slot → List ParameterSpec
  | .selector name => contract.selectors.filter (·.name = name)
  | .option name => contract.options.filter (·.name = name)

/-- The declared default of a parameter. -/
def CommandContract.defaultOf (contract : CommandContract) (slot : Slot) : Option Value :=
  (contract.specsAt slot).findSome? (·.defaultValue)

section Lookup

variable {β : Type}

theorem extend_append (found : Option (List β)) (more more' : List β) :
    extend (extend found more) more' = extend found (more ++ more') := by
  cases found <;> cases more <;> cases more' <;> simp [extend]

theorem writtenTo_push (entries : List (String × List β)) (name name' : String) (binding : β) :
    writtenTo (push entries name binding) name' =
      if name = name' then extend (writtenTo entries name') [binding]
      else writtenTo entries name' := by
  induction entries with
  | nil =>
    by_cases hname : name = name' <;> simp [push, writtenTo, hname, extend]
  | cons entry rest ih =>
    obtain ⟨bound, bindings⟩ := entry
    unfold writtenTo at ih ⊢
    by_cases hbound : bound = name
    · subst hbound
      by_cases hname : bound = name' <;> simp [push, hname, extend]
    · rw [push, if_neg hbound, find?_cons, find?_cons]
      by_cases hname : bound = name'
      · subst hname
        simp [Ne.symm hbound]
      · simpa [hname] using ih

theorem to_write (sorted : Sorted E) (w : Writing E) (slot : Slot) :
    (sorted.write w).to' slot =
      if w.slot = slot then extend (sorted.to' slot) [w.binding] else sorted.to' slot := by
  obtain ⟨at', source, binding⟩ := w
  cases at' with
  | selector name =>
    cases slot with
    | selector name' => simpa [write, to'] using writtenTo_push sorted.1 name name' binding
    | option name' => simp [write, to']
  | option name =>
    cases slot with
    | selector name' => simp [write, to']
    | option name' => simpa [write, to'] using writtenTo_push sorted.2 name name' binding

theorem to_writeAll (sorted : Sorted E) (ws : List (Writing E)) (slot : Slot) :
    (sorted.writeAll ws).to' slot =
      extend (sorted.to' slot) ((ws.filter (·.slot = slot)).map (·.binding)) := by
  induction ws generalizing sorted with
  | nil => cases hfound : sorted.to' slot <;> simp [writeAll, hfound, extend]
  | cons w rest ih =>
    have hstep : sorted.writeAll (w :: rest) = (sorted.write w).writeAll rest := rfl
    rw [hstep, ih, to_write]
    by_cases hslot : w.slot = slot
    · rw [if_pos hslot, extend_append, filter_cons_of_pos (by simpa using hslot)]
      rfl
    · rw [if_neg hslot, filter_cons_of_neg (by simpa using hslot)]

theorem findBinding_append (bound bound' : List (String × Binding E)) (name : String) :
    findBinding (bound ++ bound') name = (findBinding bound name).or (findBinding bound' name) := by
  rw [findBinding, find?_append, Option.map_or]
  rfl

theorem findBinding_fillDefault (bound : List (String × Binding E)) (spec : ParameterSpec)
    (name : String) :
    findBinding (fillDefault bound spec) name =
      (findBinding bound name).or
        (if spec.name = name then spec.defaultValue.map .value else none) := by
  unfold fillDefault
  cases spec.defaultValue with
  | none => simp
  | some default' =>
    dsimp only
    by_cases hany : bound.any (·.1 = spec.name)
    · rw [if_pos hany]
      split_ifs with hname
      · -- The parameter is bound, and its default is not looked at.
        subst hname
        have hsome : (findBinding bound spec.name).isSome := by
          rw [findBinding, Option.isSome_map, find?_isSome]
          simpa using hany
        obtain ⟨binding, hbinding⟩ := Option.isSome_iff_exists.1 hsome
        rw [hbinding]
        rfl
      · simp
    · rw [if_neg hany, findBinding_append]
      congr 1
      by_cases hname : spec.name = name <;> simp [findBinding, hname]

/-- A default is for a parameter that is not bound, and the first one declared counts. -/
theorem findBinding_fillDefaults (declared : List ParameterSpec) (bound : List (String × Binding E))
    (name : String) :
    findBinding (declared.foldl fillDefault bound) name =
      (findBinding bound name).or
        (((declared.filter (·.name = name)).findSome? (·.defaultValue)).map .value) := by
  induction declared generalizing bound with
  | nil => simp
  | cons spec rest ih =>
    rw [foldl_cons, ih, findBinding_fillDefault, Option.or_assoc]
    congr 1
    by_cases hname : spec.name = name
    · rw [if_pos hname, filter_cons_of_pos (by simpa using hname), findSome?_cons]
      cases spec.defaultValue <;> rfl
    · rw [if_neg hname, filter_cons_of_neg (by simpa using hname)]
      rfl

theorem findBinding_merge (entries : List (String × List (Binding E)))
    (declared : List ParameterSpec) (name : String) :
    findBinding (merge entries declared) name =
      ((writtenTo entries name).map collapse).or
        (((declared.filter (·.name = name)).findSome? (·.defaultValue)).map .value) := by
  rw [merge, findBinding_fillDefaults]
  congr 1
  rw [findBinding, writtenTo, find?_map, Option.map_map, Option.map_map]
  rfl

/-- A parameter is bound to its writings, or to its default where it is not written. -/
theorem binding_boundOf (contract : CommandContract) (ws : List (Writing E)) (slot : Slot) :
    (boundOf contract ws).binding slot =
      if ws.filter (·.slot = slot) = [] then (contract.defaultOf slot).map .value
      else some (collapse ((ws.filter (·.slot = slot)).map (·.binding))) := by
  have hbinding : (boundOf contract ws).binding slot =
      (((writeAll ([], []) ws).to' slot).map collapse).or
        ((contract.defaultOf slot).map .value) := by
    cases slot <;> exact findBinding_merge _ _ _
  have hempty : to' (E := E) ([], []) slot = none := by cases slot <;> rfl
  rw [hbinding, to_writeAll, hempty]
  cases ws.filter (·.slot = slot) <;> simp [extend]

end Lookup

/-! ### What is kept -/

/-- Whether a writing stands for an argument. -/
def Writing.isSourced (w : Writing E) : Bool :=
  w.source.isSome

/-- Binding keeps the arguments: each is written for one parameter that reads it, what a parameter
is bound to holds what its arguments were read as, in their order and with nothing but its writings,
and a parameter that is not written has its declared default. -/
structure KeepsAll (parsers : TextParsers) (contract : CommandContract)
    (arguments : List (Argument E)) (ws : List (Writing E)) (bound : BoundArguments E) : Prop where
  complete : Tells parsers contract arguments ws
  kept : ∀ slot ∈ ws.map (·.slot), ∃ binding, bound.binding slot = some binding ∧
    Sublist ((ws.filter fun w => w.slot = slot && w.isSourced).flatMap (·.binding.parts))
      binding.parts ∧
    Sublist binding.parts ((ws.filter (·.slot = slot)).flatMap (·.binding.parts))
  defaulted : ∀ slot ∉ ws.map (·.slot),
    bound.binding slot = (contract.defaultOf slot).map .value

/-- Some parameter is written with an argument that is read as a value, and with an expression. -/
def Mixed (ws : List (Writing E)) : Prop :=
  ∃ one ∈ ws, ∃ two ∈ ws, one.slot = two.slot ∧ one.isSourced ∧ one.binding.isValue ∧
    two.binding.isValue = false

section Collapse

variable {bindings : List (Binding E)}

theorem expressionsOf_eq_nil (h : ∀ binding ∈ bindings, binding.isValue) :
    expressionsOf bindings = [] := by
  rw [expressionsOf, flatMap_eq_nil_iff]
  intro binding hbinding
  cases binding with
  | value v => rfl
  | expressions written => exact absurd (h _ hbinding) Bool.false_ne_true

theorem map_valuesOf (h : ∀ binding ∈ bindings, binding.isValue) :
    (valuesOf bindings).map .value = bindings.flatMap (·.parts) := by
  rw [valuesOf, map_flatMap]
  refine flatMap_congr fun binding hbinding => ?_
  cases binding with
  | value v => cases v <;> rfl
  | expressions written => exact absurd (h _ hbinding) Bool.false_ne_true

theorem parts_collapse_of_values (h : ∀ binding ∈ bindings, binding.isValue) :
    (collapse bindings).parts = bindings.flatMap (·.parts) := by
  unfold collapse
  split
  · simp
  · rw [expressionsOf_eq_nil h]
    exact map_valuesOf h

theorem parts_collapse_of_expression (h : expressionsOf bindings ≠ []) :
    (collapse bindings).parts = (expressionsOf bindings).map .expression := by
  unfold collapse
  split
  · rename_i binding
    cases binding with
    | value v => exact absurd rfl h
    | expressions written => simp [expressionsOf, Binding.parts]
  · rw [if_neg (by simpa using h)]
    rfl

/-- What a binding holds when it holds expressions. -/
def Binding.expressionParts : Binding E → List (Part E)
  | .value _ => []
  | .expressions written => written.map .expression

theorem Binding.expressionParts_of_not_isValue {binding : Binding E}
    (h : binding.isValue = false) : binding.expressionParts = binding.parts := by
  cases binding with
  | value v => cases h
  | expressions written => rfl

theorem map_expressionsOf (bindings : List (Binding E)) :
    (expressionsOf bindings).map .expression = bindings.flatMap (·.expressionParts) := by
  rw [expressionsOf, map_flatMap]
  refine flatMap_congr fun binding _ => ?_
  cases binding <;> rfl

theorem expressionsOf_sublist (bindings : List (Binding E)) :
    Sublist ((expressionsOf bindings).map .expression) (bindings.flatMap (·.parts)) := by
  rw [map_expressionsOf]
  refine Sublist.flatMap_right _ fun binding _ => ?_
  cases binding with
  | value v => exact nil_sublist _
  | expressions written => exact Sublist.refl _

end Collapse

section Kept

variable {parsers : TextParsers} {contract : CommandContract} {ws : List (Writing E)}
  {w : Writing E} {slot : Slot}

/-- An argument that is read as a value leaves a part in its binding. -/
theorem Fits.exists_part (h : Fits parsers contract w) (hvalue : w.binding.isValue) :
    ∃ v, Part.value v ∈ w.binding.parts := by
  have hcoerced {declared : DeclaredType} {text : String} {v : Value}
      (hcoerce : declared.coerce parsers text = .ok v) :
      ∃ item, Part.value item ∈ (Binding.value v : Binding E).parts := by
    have hne := DeclaredType.coerce_ne_nil hcoerce
    cases v with
    | list items =>
      obtain ⟨item, hitem⟩ := exists_mem_of_ne_nil items fun hnil => hne (by rw [hnil])
      exact ⟨item, mem_map_of_mem hitem⟩
    | _ => exact ⟨_, mem_singleton_self _⟩
  have hreads {spec : ParameterSpec} {argument : Argument E} {binding : Binding E}
      (hread : Reads parsers spec argument binding) (hvalue : binding.isValue) :
      ∃ v, Part.value v ∈ binding.parts := by
    cases hread with
    | word hcoerce => exact hcoerced hcoerce
    | literal _ hcoerce => exact hcoerced hcoerce
    | kept => exact absurd hvalue Bool.false_ne_true
  cases h with
  | selector _ hread => exact hreads hread hvalue
  | option _ hread => exact hreads hread hvalue
  | bare => exact ⟨_, mem_singleton_self _⟩

/-- A writing that is no value holds an expression. -/
theorem Fits.expressionsOf_ne_nil (h : Fits parsers contract w) (hmem : w ∈ ws)
    (hvalue : w.binding.isValue = false) : expressionsOf (ws.map (·.binding)) ≠ [] := by
  have hreads {spec : ParameterSpec} {argument : Argument E} {binding : Binding E}
      (hread : Reads parsers spec argument binding) (hvalue : binding.isValue = false) :
      ∃ expression, binding = .expressions [expression] := by
    cases hread with
    | word | literal => cases hvalue
    | kept => exact ⟨_, rfl⟩
  have hbinding : ∃ expression, w.binding = .expressions [expression] := by
    cases h with
    | selector _ hread => exact hreads hread hvalue
    | option _ hread => exact hreads hread hvalue
    | bare => cases hvalue
  obtain ⟨expression, hbinding⟩ := hbinding
  refine ne_nil_of_mem (a := expression) (mem_flatMap.2 ⟨w.binding,
    mem_map_of_mem hmem, ?_⟩)
  rw [hbinding]
  exact mem_singleton_self _

theorem filter_sourced (ws : List (Writing E)) (slot : Slot) :
    (ws.filter fun w => w.slot = slot && w.isSourced) =
      (ws.filter (·.slot = slot)).filter (·.isSourced) := by
  rw [filter_filter]
  refine filter_congr fun w _ => Bool.and_comm _ _

/-- What the arguments of a parameter were read as stands in its binding, where the arguments are
all read as values or all read as expressions. -/
theorem sublist_collapse (hfits : ∀ w ∈ ws, Fits parsers contract w)
    (hmixed : ∀ one ∈ ws, ∀ two ∈ ws, one.isSourced → one.binding.isValue → two.binding.isValue) :
    Sublist ((ws.filter (·.isSourced)).flatMap (·.binding.parts))
      (collapse (ws.map (·.binding))).parts := by
  by_cases hvalues : ∀ w ∈ ws, w.binding.isValue
  · rw [parts_collapse_of_values (by simpa using hvalues), flatMap_map]
    exact filter_sublist.flatMap _
  · push Not at hvalues
    obtain ⟨two, htwo, hvalue⟩ := hvalues
    have hvalue : two.binding.isValue = false := by simpa using hvalue
    rw [parts_collapse_of_expression ((hfits two htwo).expressionsOf_ne_nil htwo hvalue),
      map_expressionsOf, flatMap_map]
    have hkept : ∀ w ∈ ws.filter (·.isSourced), w.binding.parts = w.binding.expressionParts := by
      intro w hw
      obtain ⟨hmem, hsourced⟩ := mem_filter.1 hw
      refine (Binding.expressionParts_of_not_isValue ?_).symm
      by_contra hne
      have htwoValue := hmixed w hmem two htwo hsourced (by simpa using hne)
      exact absurd (hvalue.symm.trans htwoValue) Bool.false_ne_true
    rw [flatMap_congr hkept]
    exact filter_sublist.flatMap _

theorem collapse_sublist (hfits : ∀ w ∈ ws, Fits parsers contract w) :
    Sublist (collapse (ws.map (·.binding))).parts (ws.flatMap (·.binding.parts)) := by
  by_cases hvalues : ∀ w ∈ ws, w.binding.isValue
  · rw [parts_collapse_of_values (by simpa using hvalues), flatMap_map]
  · push Not at hvalues
    obtain ⟨two, htwo, hvalue⟩ := hvalues
    have hvalue : two.binding.isValue = false := by simpa using hvalue
    rw [parts_collapse_of_expression ((hfits two htwo).expressionsOf_ne_nil htwo hvalue)]
    have hsub := expressionsOf_sublist (ws.map (·.binding))
    rwa [flatMap_map] at hsub

theorem filter_slot_eq_nil : ws.filter (·.slot = slot) = [] ↔ slot ∉ ws.map (·.slot) := by
  simp [filter_eq_nil_iff]

theorem binding_of_mem (h : slot ∈ ws.map (·.slot)) :
    (boundOf contract ws).binding slot =
      some (collapse ((ws.filter (·.slot = slot)).map (·.binding))) := by
  rw [binding_boundOf, if_neg (fun hnil => filter_slot_eq_nil.1 hnil h)]

theorem not_sublist_of_mixed {one two : Writing E} (hfits : ∀ w ∈ ws, Fits parsers contract w)
    (hone : one ∈ ws) (htwo : two ∈ ws) (hsourced : one.isSourced) (hvalue : one.binding.isValue)
    (hexpression : two.binding.isValue = false) :
    ¬ Sublist ((ws.filter (·.isSourced)).flatMap (·.binding.parts))
      (collapse (ws.map (·.binding))).parts := by
  intro hsub
  obtain ⟨v, hv⟩ := (hfits one hone).exists_part hvalue
  have hmem := hsub.subset (mem_flatMap.2 ⟨one, mem_filter.2 ⟨hone, hsourced⟩, hv⟩)
  rw [parts_collapse_of_expression ((hfits two htwo).expressionsOf_ne_nil htwo hexpression)] at hmem
  obtain ⟨expression, -, heq⟩ := mem_map.1 hmem
  cases heq

/-- **What binding keeps.** Where the arguments of a stage are bound, every argument is kept exactly
when no parameter is written with an argument that is read as a value and with an expression. -/
theorem keepsAll_iff {arguments : List (Argument E)} {bound : BoundArguments E}
    (h : contract.bind parsers arguments = .ok bound) :
    ∃ ws, contract.reading parsers arguments = .ok ws ∧
      (KeepsAll parsers contract arguments ws bound ↔ ¬ Mixed ws) := by
  rw [bind_eq] at h
  cases hreading : contract.reading parsers arguments with
  | error error => rw [hreading] at h; cases h
  | ok ws =>
    rw [hreading] at h
    obtain rfl : boundOf contract ws = bound := Except.ok.inj h
    have hnothing : Waiting.nothing.Declared contract := trivial
    have htells := tells_written hnothing hreading
    have hfits (slot : Slot) : ∀ w ∈ ws.filter (·.slot = slot), Fits parsers contract w :=
      fun w hw => htells.2 w (mem_filter.1 hw).1
    refine ⟨ws, rfl, fun hkeeps => ?_, fun hmixed => ⟨htells, fun slot hslot => ?_, ?_⟩⟩
    · rintro ⟨one, hone, two, htwo, hslot, hsourced, hvalue, hexpression⟩
      have hmem : one.slot ∈ ws.map (·.slot) := mem_map_of_mem hone
      obtain ⟨binding, hbinding, hsub, -⟩ := hkeeps.kept one.slot hmem
      obtain rfl := Option.some.inj ((binding_of_mem hmem).symm.trans hbinding)
      rw [filter_sourced] at hsub
      exact not_sublist_of_mixed (hfits one.slot) (mem_filter.2 ⟨hone, by simp⟩)
        (mem_filter.2 ⟨htwo, by simpa using hslot.symm⟩) hsourced hvalue hexpression hsub
    · refine ⟨_, binding_of_mem hslot, ?_, collapse_sublist (hfits slot)⟩
      rw [filter_sourced]
      refine sublist_collapse (hfits slot) fun one hone two htwo hsourced hvalue => ?_
      obtain ⟨hone, honeSlot⟩ := mem_filter.1 hone
      obtain ⟨htwo, htwoSlot⟩ := mem_filter.1 htwo
      by_contra hne
      refine hmixed ⟨one, hone, two, htwo, ?_, hsourced, hvalue, by simpa using hne⟩
      exact (of_decide_eq_true honeSlot).trans (of_decide_eq_true htwoSlot).symm
    · intro slot hslot
      rw [binding_boundOf, if_pos (filter_slot_eq_nil.2 hslot)]

end Kept

/-! ### A word and an expression -/

/-- Parsers that read nothing. -/
def noParsers : TextParsers where
  float _ := none
  timestamp _ := none
  ip _ := none

/-- A command that removes the files it is given. -/
def removeFile : CommandContract where
  verb := "remove"
  target := some "file"
  argumentMode := .words
  providerCapability := some "file.remove"
  selectors :=
    [{ name := "path", declaredType := .path, repeatable := true, optionalValue := false,
       defaultValue := none }]
  options := []

/-- A file for `remove file`, and what it is bound to. -/
def fileWriting (argument : Argument Unit) (binding : Binding Unit) : Writing Unit where
  slot := .selector "path"
  source := some argument
  binding := binding

/-- Two files by their names are both kept. -/
theorem keepsAll_words :
    ∃ ws, removeFile.reading noParsers [.word "a", .word "b"] = .ok ws ∧
      KeepsAll noParsers removeFile [.word "a", .word "b"] ws
        (boundOf removeFile
          [fileWriting (.word "a") (.value (.path "a".toUTF8.toList)),
            fileWriting (.word "b") (.value (.path "b".toUTF8.toList))]) := by
  obtain ⟨ws, hreading, hiff⟩ := keepsAll_iff (show
    removeFile.bind noParsers [.word "a", .word "b"] = .ok (boundOf removeFile
      [fileWriting (.word "a") (.value (.path "a".toUTF8.toList)),
        fileWriting (.word "b") (.value (.path "b".toUTF8.toList))]) from rfl)
  have hws : ws = [fileWriting (.word "a") (.value (.path "a".toUTF8.toList)),
      fileWriting (.word "b") (.value (.path "b".toUTF8.toList))] := (Except.ok.inj hreading).symm
  subst hws
  refine ⟨_, hreading, hiff.2 ?_⟩
  rintro ⟨one, -, two, htwo, -, -, -, hexpression⟩
  simp [fileWriting] at htwo
  rcases htwo with rfl | rfl <;> cases hexpression

/-- A file by its name and a file in a variable: the name is not in the binding. -/
theorem not_keepsAll_mixed :
    ¬ ∀ (contract : CommandContract) (arguments : List (Argument Unit))
      (bound : BoundArguments Unit) (ws : List (Writing Unit)),
      contract.bind noParsers arguments = .ok bound →
      contract.reading noParsers arguments = .ok ws →
      KeepsAll noParsers contract arguments ws bound := by
  intro h
  have hkeeps := h removeFile [.word "a", .value (.other ())]
    (boundOf removeFile
      [fileWriting (.word "a") (.value (.path "a".toUTF8.toList)),
        fileWriting (.value (.other ())) (.expressions [.other ()])])
    [fileWriting (.word "a") (.value (.path "a".toUTF8.toList)),
      fileWriting (.value (.other ())) (.expressions [.other ()])] rfl rfl
  obtain ⟨binding, hbinding, hsub, -⟩ := hkeeps.kept (.selector "path") (by simp [fileWriting])
  have hbound : binding = .expressions [.other ()] := (Option.some.inj hbinding).symm
  subst hbound
  exact absurd hsub.length_le (by decide)

end OnoSendai.Command
