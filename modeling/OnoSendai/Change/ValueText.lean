import Mathlib
import OnoSendai.Change.Target
import OnoSendai.Lib.Labelled
import OnoSendai.Value.Plain

/-!
# The text of a value, and the value

The seal of a plan and the handle of a secret rest on the text of a value standing for the value:
equal values are to be written alike, and no others. The text of a list is the texts of its items,
each with a comma behind it, and nothing in them is escaped, so a string can spell the items that
follow it. The kinds that are written by their debug rendering, and paths and floating-point
numbers, are written by more or by less than they are compared by: a decimal by its scale, a map by
its order, a record by its provenance, a path by the characters that stand for its bytes.
-/

namespace OnoSendai

open Labelled
open List

/-! ### Values taken apart -/

/-- The name of a value's kind as it is written before what the value holds. -/
def kindLabel : Value → String
  | .null => "null"
  | .list _ => "list:["
  | value => value.typeName ++ ":"

/-- What closes a list: the comma of its last item, and the bracket. -/
def closingOf (items : List Value) : List Char :=
  if items.isEmpty then [']'] else [',', ']']

section Written

variable (render : Renderings)

/-- What a value that is no list holds, as it is written. -/
def leafText : Value → String
  | .null => ""
  | .bool flag => if flag then "true" else "false"
  | .int number => toString number
  | .float bits => render.float bits
  | .string text => text
  | .path path => render.path path
  | .port number => toString number.toNat
  | .ip address => render.ip address
  | .timestamp instant => render.timestamp instant
  | .list _ => ""
  | value => render.debug value

mutual

/-- What stands behind the name of a value's kind. -/
def bodyOf : Value → Body Char
  | .list items =>
    .group (separatedBy [','] (writtenItems items)) (closingOf items)
  | value => .text (leafText render value).toList
termination_by structural value => value

/-- The items of a list taken apart. -/
def writtenItems : List Value → List (List Char × Body Char)
  | [] => []
  | item :: items => ((kindLabel item).toList, bodyOf item) :: writtenItems items
termination_by structural items => items

end

/-- A value taken apart into the texts it is written with. -/
def written (value : Value) : Item Char :=
  ((kindLabel value).toList, bodyOf render value)

/-- Values that are taken apart into the same texts. -/
def Alike (a b : Value) : Prop :=
  written render a = written render b

/-- Whether two values cannot be mistaken for each other: at the first place where the items of two
lists differ, no text goes on as the other list does after its own. Values that are not both lists
never are. -/
def ToldApart : Value → Value → Prop
  | .list items, .list others =>
    ItemsToldApart (separatedBy [','] (writtenItems render items)) (closingOf items)
      (separatedBy [','] (writtenItems render others)) (closingOf others)
  | _, _ => True

end Written

/-! ### The text is what the parts are written as -/

section Text

variable {render : Renderings}

variable {value : Value}

theorem bodyOf_of_not_list (h : ∀ items, value ≠ .list items) :
    bodyOf render value = .text (leafText render value).toList := by
  cases value with
  | list items => exact absurd rfl (h items)
  | _ => rfl

theorem valueText_of_not_list (h : ∀ items, value ≠ .list items) :
    valueText render value = kindLabel value ++ leafText render value := by
  cases value with
  | list items => exact absurd rfl (h items)
  | _ => simp [valueText, kindLabel, leafText, Value.typeName]

theorem writtenItems_eq_map (items : List Value) :
    writtenItems render items = items.map (written render) := by
  induction items with
  | nil => rfl
  | cons item items ih => rw [writtenItems, ih, map_cons, written]

/-- The items of a list are written with a comma behind each. -/
theorem intercalate_items {items : List Value}
    (h : ∀ item ∈ items, flatItem (written render item) = (valueText render item).toList)
    (hne : items ≠ []) :
    [','].intercalate ((items.map (written render)).map flatItem) ++ [','] =
      (itemsText render items).toList := by
  induction items with
  | nil => exact absurd rfl hne
  | cons item items ih =>
    have hitem := h item mem_cons_self
    cases items with
    | nil => simp [itemsText, hitem]
    | cons next items =>
      have hrest := ih (fun other hmem => h other (mem_cons_of_mem _ hmem))
        (cons_ne_nil _ _)
      simp only [map_cons] at hrest ⊢
      rw [intercalate_cons_cons, hitem, itemsText, String.toList_append, String.toList_append,
        ← hrest]
      simp only [append_assoc]
      rfl

/-- A value's text is what is written of it taken apart. -/
theorem flatItem_written (value : Value) :
    flatItem (written render value) = (valueText render value).toList := by
  have hleaf : ∀ value : Value, (∀ items, value ≠ .list items) →
      flatItem (written render value) = (valueText render value).toList := by
    intro value hlist
    rw [valueText_of_not_list hlist, flatItem, written, bodyOf_of_not_list hlist]
    simp [Body.flat]
  induction value using Value.induction with
  | leaf value hvalue =>
    refine hleaf value fun items hitems => ?_
    rw [hitems] at hvalue
    exact hvalue
  | list items ih =>
    simp only [flatItem, written, bodyOf, Body.flat, kindLabel, valueText, String.toList_append,
      flatItems_separatedBy, writtenItems_eq_map]
    cases items with
    | nil => rfl
    | cons item items =>
      rw [← intercalate_items ih (cons_ne_nil _ _)]
      simp only [append_assoc]
      rfl
  | map entries => exact hleaf _ fun _ heq => by cases heq
  | record schema fields extra provenance => exact hleaf _ fun _ heq => by cases heq

/-! ### What tells values apart -/

/-- Every name of a kind as it is written. -/
def kindLabels : List String :=
  ["null", "bool:", "int:", "float:", "decimal:", "string:", "bytes:", "path:", "timestamp:",
    "duration:", "bytesize:", "percent:", "regex:", "uuid:", "ip:", "ipnetwork:", "port:", "list:[",
    "map:", "record:", "error:"]

theorem kindLabel_mem (value : Value) : kindLabel value ∈ kindLabels := by
  cases value <;> simp [kindLabel, kindLabels, Value.typeName]

theorem kindLabels_part : ∀ one ∈ kindLabels, ∀ two ∈ kindLabels, one = two ∨
    Parted one.toList two.toList := by
  decide +kernel

theorem exists_eq_list
    (h : kindLabel value = "list:[") : ∃ items, value = .list items := by
  cases value <;> simp_all [kindLabel, Value.typeName]
 
/-- Values that are told apart stay so taken apart: the names of two kinds part, and values of one
kind that are no lists hold a text each. -/
theorem rootsToldApart {a b : Value} (h : ToldApart render a b) :
    RootsToldApart (written render a) (written render b) := by
  rcases kindLabels_part _ (kindLabel_mem a) _ (kindLabel_mem b) with hlabel | hparted
  · refine Or.inr ⟨congrArg String.toList hlabel, ?_⟩
    by_cases hlist : ∃ items, a = .list items
    · obtain ⟨items, rfl⟩ := hlist
      obtain ⟨others, rfl⟩ := exists_eq_list hlabel.symm
      exact h
    · have ha : ∀ items, a ≠ .list items := fun items heq => hlist ⟨items, heq⟩
      have hb : ∀ others, b ≠ .list others := by
        rintro others rfl
        exact hlist (exists_eq_list hlabel)
      rw [written, written, bodyOf_of_not_list ha, bodyOf_of_not_list hb]
      trivial
  · exact Or.inl hparted

/-- The texts of values that are told apart are the same only for values that are alike. -/
theorem valueText_eq_iff {a b : Value} (h : ToldApart render a b) :
    valueText render a = valueText render b ↔ Alike render a b := by
  rw [← String.toList_inj, ← flatItem_written, ← flatItem_written]
  exact flatItem_eq_iff (rootsToldApart h)

/-! ### Values held alike -/

mutual

/-- Whether two values are held the same: lists item by item, paths that are displayed the same,
and otherwise one value, whichever NaN it holds. -/
def HeldAlike : Value → Value → Prop
  | .list items, .list others => HeldAlikeList items others
  | .path one, .path other => displayed one = displayed other
  | one, other => one.plain = other.plain

/-- The same of two lists. -/
def HeldAlikeList : List Value → List Value → Prop
  | [], [] => True
  | item :: items, other :: others => HeldAlike item other ∧ HeldAlikeList items others
  | _, _ => False

end

mutual

/-- The values that a list holds at any depth, and that are no lists. -/
def leaves : Value → List Value
  | .list items => leavesOf items
  | value => [value]

/-- The same of every item. -/
def leavesOf : List Value → List Value
  | [] => []
  | item :: items => leaves item ++ leavesOf items

end

mutual

/-- Whether the paths that two lists hold in one place have the same components. -/
def PathsAgree : Value → Value → Prop
  | .list items, .list others => PathsAgreeList items others
  | .path one, .path other => Value.pathComponents one = Value.pathComponents other
  | _, _ => True

/-- The same of two lists. -/
def PathsAgreeList : List Value → List Value → Prop
  | item :: items, other :: others => PathsAgree item other ∧ PathsAgreeList items others
  | _, _ => True

end

/-- Whether a value is written by its debug rendering. -/
def ByDebug : Value → Prop
  | .decimal _ _ | .bytes _ | .duration _ | .byteSize _ | .percent _ | .regex _ | .uuid _
  | .ipNetwork _ _ | .map _ | .record _ _ _ _ | .error _ _ => True
  | _ => False

/-- What is assumed of the renderings, as far as they render the values of a list: a number is
written so that it can be read back, and every NaN alike; a path by its display; an address and an
instant so that they can be read back; and by its debug rendering a value of each kind as it is
held. -/
structure Renderings.AsDocumented (render : Renderings) (values : List Value) : Prop where
  float : ∀ x y, .float x ∈ values → .float y ∈ values →
    (render.float x = render.float y ↔ Value.plainBits x = Value.plainBits y)
  path : ∀ x y, .path x ∈ values → .path y ∈ values →
    (render.path x = render.path y ↔ displayed x = displayed y)
  ip : ∀ x y, .ip x ∈ values → .ip y ∈ values → render.ip x = render.ip y → x = y
  timestamp : ∀ x y, .timestamp x ∈ values → .timestamp y ∈ values →
    render.timestamp x = render.timestamp y → x = y
  debug : ∀ x ∈ values, ∀ y ∈ values, ByDebug x → kindLabel x = kindLabel y →
    (render.debug x = render.debug y ↔ x.plain = y.plain)

theorem Renderings.AsDocumented.mono {values others : List Value} (h : render.AsDocumented values)
    (hsubset : others ⊆ values) : render.AsDocumented others where
  float x y hx hy := h.float x y (hsubset hx) (hsubset hy)
  path x y hx hy := h.path x y (hsubset hx) (hsubset hy)
  ip x y hx hy := h.ip x y (hsubset hx) (hsubset hy)
  timestamp x y hx hy := h.timestamp x y (hsubset hx) (hsubset hy)
  debug x hx y hy := h.debug x (hsubset hx) y (hsubset hy)

theorem leavesOf_eq_flatMap (items : List Value) : leavesOf items = items.flatMap leaves := by
  induction items with
  | nil => rfl
  | cons item items ih => rw [leavesOf, ih, flatMap_cons]

theorem kindLabel_plain (value : Value) : kindLabel value.plain = kindLabel value := by
  cases value <;> rfl

theorem HeldAlike.kindLabel_eq {a b : Value} (h : HeldAlike a b) : kindLabel a = kindLabel b := by
  have hplain : a.plain = b.plain → kindLabel a = kindLabel b := fun h => by
    rw [← kindLabel_plain a, h, kindLabel_plain]
  cases a with
  | list => cases b <;> first | rfl | exact hplain h
  | path => cases b <;> first | rfl | exact hplain h
  | _ => exact hplain h

/-- Of one kind, values that are no lists hold one text exactly when they are held alike. -/
theorem leafText_eq_iff {values : List Value} (h : render.AsDocumented values) {a b : Value}
    (ha : a ∈ values) (hb : b ∈ values) (hlist : ∀ items, a ≠ .list items)
    (hkind : kindLabel a = kindLabel b) :
    leafText render a = leafText render b ↔ HeldAlike a b := by
  have hdebug := fun hwritten => h.debug a ha b hb hwritten hkind
  cases a <;> cases b <;> try simp [kindLabel, Value.typeName] at hkind
  case list.list => exact absurd rfl (hlist _)
  case null.null => exact iff_of_true rfl rfl
  case bool.bool x y => cases x <;> cases y <;> simp [leafText, HeldAlike, Value.plain]
  case int.int x y =>
    exact ⟨fun htext => congrArg Value.int (Int.repr_injective htext),
      fun hsame => by cases hsame; rfl⟩
  case float.float x y => exact (h.float x y ha hb).trans (by simp [HeldAlike, Value.plain])
  case string.string x y => simp [leafText, HeldAlike, Value.plain]
  case path.path x y => exact h.path x y ha hb
  case timestamp.timestamp x y =>
    exact ⟨fun htext => congrArg Value.timestamp (h.timestamp x y ha hb htext),
      fun hsame => by cases hsame; rfl⟩
  case ip.ip x y =>
    exact ⟨fun htext => congrArg Value.ip (h.ip x y ha hb htext), fun hsame => by cases hsame; rfl⟩
  case port.port x y =>
    exact ⟨fun htext => congrArg Value.port (UInt16.toNat_inj.1 (Nat.repr_injective htext)),
      fun hsame => by cases hsame; rfl⟩
  all_goals exact hdebug trivial

theorem writtenItems_eq_iff {items others : List Value} (h : ∀ item ∈ items, ∀ other ∈ others,
    (Alike render item other ↔ HeldAlike item other)) :
    writtenItems render items = writtenItems render others ↔ HeldAlikeList items others := by
  induction items generalizing others with
  | nil => cases others <;> simp [writtenItems, HeldAlikeList]
  | cons item items ih =>
    cases others with
    | nil => simp [writtenItems, HeldAlikeList]
    | cons other others =>
      have hfirst := h item mem_cons_self other mem_cons_self
      have hrest := ih fun item hitem other hother =>
        h item (mem_cons_of_mem _ hitem) other (mem_cons_of_mem _ hother)
      rw [writtenItems, writtenItems, cons.injEq, HeldAlikeList, hrest]
      exact and_congr_left' hfirst

theorem alike_list_iff {items others : List Value} :
    Alike render (.list items) (.list others) ↔
      writtenItems render items = writtenItems render others := by
  have hclosing : ∀ items, closingOf items =
      if (writtenItems render items).isEmpty then [']'] else [',', ']'] := by
    intro items
    cases items <;> rfl
  constructor
  · intro halike
    exact separatedBy_inj.1 (Body.group.inj (Prod.mk.inj halike).2).1
  · intro hitems
    rw [Alike, written, written, bodyOf, bodyOf, hclosing items, hclosing others, hitems]
    rfl

/-- What is written of two values is the same exactly when they are held alike. -/
theorem alike_iff_heldAlike {a b : Value} (h : render.AsDocumented (leaves a ++ leaves b)) :
    Alike render a b ↔ HeldAlike a b := by
  have hleaf : ∀ a b : Value, (∀ items, a ≠ .list items) →
      render.AsDocumented (leaves a ++ leaves b) → (Alike render a b ↔ HeldAlike a b) := by
    intro a b ha h
    by_cases hkind : kindLabel a = kindLabel b
    · have hb : ∀ items, b ≠ .list items := by
        rintro items rfl
        obtain ⟨_, hlist⟩ := exists_eq_list hkind
        exact ha _ hlist
      have hself : ∀ value : Value, (∀ items, value ≠ .list items) → leaves value = [value] := by
        intro value hvalue
        cases value <;> first | rfl | exact absurd rfl (hvalue _)
      rw [hself a ha, hself b hb] at h
      rw [← leafText_eq_iff h (by simp) (by simp) ha hkind, Alike, written, written,
        bodyOf_of_not_list ha, bodyOf_of_not_list hb, hkind]
      simp [String.toList_inj]
    · refine iff_of_false (fun halike => hkind ?_) fun hheld => hkind hheld.kindLabel_eq
      exact String.toList_inj.1 (Prod.mk.inj halike).1
  induction a using Value.induction generalizing b with
  | leaf a ha => exact hleaf a b (fun items heq => by rw [heq] at ha; exact ha) h
  | list items ih =>
    by_cases hlist : ∃ others, b = .list others
    · obtain ⟨others, rfl⟩ := hlist
      rw [alike_list_iff, HeldAlike]
      refine writtenItems_eq_iff fun item hitem other hother => ih item hitem (h.mono ?_)
      intro value hvalue
      rw [leaves, leaves, leavesOf_eq_flatMap, leavesOf_eq_flatMap]
      simp only [mem_append, mem_flatMap] at hvalue ⊢
      exact hvalue.imp (fun hmem => ⟨item, hitem, hmem⟩) fun hmem => ⟨other, hother, hmem⟩
    · have hkind : kindLabel (.list items) ≠ kindLabel b := fun heq =>
        hlist (exists_eq_list heq.symm)
      refine iff_of_false (fun halike => hkind ?_) fun hheld => hkind hheld.kindLabel_eq
      exact String.toList_inj.1 (Prod.mk.inj halike).1
  | map entries => exact hleaf _ b nofun h
  | record schema fields extra provenance => exact hleaf _ b nofun h

/-! ### When the text is canonical -/

theorem eqLists_iff_of_heldAlikeList {powi : ℕ → UInt64} {items others : List Value}
    (h : HeldAlikeList items others) (hitem : ∀ item ∈ items, ∀ other, HeldAlike item other →
      (item.eq powi other = true ↔ item.eq powi item = true ∧ PathsAgree item other)) :
    Value.eqLists powi items others = true ↔
      Value.eqLists powi items items = true ∧ PathsAgreeList items others := by
  induction items generalizing others with
  | nil =>
    cases others with
    | nil => simp [Value.eqLists, PathsAgreeList]
    | cons => exact h.elim
  | cons item items ih =>
    cases others with
    | nil => exact h.elim
    | cons other others =>
      have hrest := ih h.2 fun item hmem => hitem item (mem_cons_of_mem _ hmem)
      rw [Value.eqLists, Value.eqLists, Bool.and_eq_true, Bool.and_eq_true, hrest,
        hitem item mem_cons_self other h.1, PathsAgreeList]
      exact and_and_and_comm

/-- Values held alike are equal but for a NaN, and for paths displayed alike that are not. -/
theorem HeldAlike.eq_iff {powi : ℕ → UInt64} {a b : Value} (h : HeldAlike a b) :
    a.eq powi b = true ↔ a.eq powi a = true ∧ PathsAgree a b := by
  have hplain : ∀ a b : Value, a.plain = b.plain → PathsAgree a b →
      (a.eq powi b = true ↔ a.eq powi a = true ∧ PathsAgree a b) := by
    intro a b heq hpaths
    rw [← Value.eq_plain a b, ← heq, Value.eq_plain]
    exact (and_iff_left hpaths).symm
  induction a using Value.induction generalizing b with
  | leaf a ha =>
    cases a with
    | list | map | record => exact ha.elim
    | path path =>
      cases b with
      | path other =>
        show decide (Value.pathComponents path = Value.pathComponents other) = true ↔
          decide (Value.pathComponents path = Value.pathComponents path) = true ∧
            Value.pathComponents path = Value.pathComponents other
        simp
      | _ => exact hplain _ _ h trivial
    | _ => exact hplain _ _ h trivial
  | list items ih =>
    cases b with
    | list others => exact eqLists_iff_of_heldAlikeList h fun item hitem other => ih item hitem
    | _ => exact hplain _ _ h trivial
  | map entries => exact hplain _ _ h trivial
  | record schema fields extra provenance => exact hplain _ _ h trivial

/-- **When the text of a value is canonical.** For values that are told apart, and renderings that
are as documented, the text of two values tells whether they are equal exactly when equal values
among them are held alike, and values held alike hold no NaN and no paths that differ. -/
theorem valueText_canonical_iff (powi : ℕ → UInt64) {a b : Value} (h : ToldApart render a b)
    (hrender : render.AsDocumented (leaves a ++ leaves b)) :
    (valueText render a = valueText render b ↔ a.eq powi b = true) ↔
      (a.eq powi b = true → HeldAlike a b) ∧
        (HeldAlike a b → a.eq powi a = true ∧ PathsAgree a b) := by
  rw [valueText_eq_iff h, alike_iff_heldAlike hrender]
  constructor
  · intro htext
    exact ⟨htext.2, fun hheld => hheld.eq_iff.1 (htext.1 hheld)⟩
  · rintro ⟨hheld, hequal⟩
    exact ⟨fun halike => halike.eq_iff.2 (hequal halike), hheld⟩

end Text

/-- The debug rendering of a decimal as it is derived; nothing else is rendered. -/
def derivedRenderings : Renderings where
  float _ := ""
  path _ := ""
  ip _ := ""
  timestamp _ := ""
  debug
    | .decimal mantissa scale =>
      "Decimal(Decimal \x7b mantissa: " ++ toString mantissa ++ ", scale: " ++ toString scale ++
        " \x7d)"
    | _ => ""
  duration _ := ""

/-- A price by its name, to one decimal place. -/
def price : Value :=
  .list [.string "price", .decimal 15 1]

/-- The same price, to two. -/
def priceInCents : Value :=
  .list [.string "price", .decimal 150 2]

theorem derivedRenderings_asDocumented :
    derivedRenderings.AsDocumented (leaves price ++ leaves priceInCents) where
  float := by simp [leaves, leavesOf, price, priceInCents]
  path := by simp [leaves, leavesOf, price, priceInCents]
  ip := by simp [leaves, leavesOf, price, priceInCents]
  timestamp := by simp [leaves, leavesOf, price, priceInCents]
  debug := by
    have htext :
        derivedRenderings.debug (.decimal 15 1) ≠ derivedRenderings.debug (.decimal 150 2) :=
      by decide
    simp [leaves, leavesOf, price, priceInCents, ByDebug, kindLabel, Value.typeName, Value.plain,
      htext, htext.symm]

theorem valueText_canonical_prices :
    (valueText derivedRenderings price = valueText derivedRenderings priceInCents ↔
      price.eq (fun _ => 0) priceInCents = true) ↔
    (price.eq (fun _ => 0) priceInCents = true → HeldAlike price priceInCents) ∧
      (HeldAlike price priceInCents →
        price.eq (fun _ => 0) price = true ∧ PathsAgree price priceInCents) := by
  refine valueText_canonical_iff _ (Or.inr ⟨rfl, Or.inl rfl, fun _ => Or.inr ⟨rfl, Or.inr ?_,
    fun h => ?_⟩⟩) derivedRenderings_asDocumented
  · decide
  · exact absurd (Body.text.inj h) (by decide)

theorem not_valueText_canonical :
    (∀ render powi, ¬∀ a b, valueText render a = valueText render b → a.eq powi b = true) ∧
      ∀ powi, ¬∀ a b, a.eq powi b = true →
        valueText derivedRenderings a = valueText derivedRenderings b := by
  refine ⟨fun render powi h => ?_, fun powi h => ?_⟩
  · have hequal := h (.list [.string "a", .string "b"]) (.list [.string "a,string:b"]) rfl
    cases hequal
  · have htext := h (.decimal 15 1) (.decimal 150 2) rfl
    revert htext
    decide

end OnoSendai
