import Mathlib.Data.List.Nodup

/-!
# Closed vocabularies

Every enumeration of the change model is declared through one construct: a list of members,
the spelling each carries in contracts and records, and the function that reads a member back
from its spelling.
-/

namespace OnoSendai

/-- A closed vocabulary: its members in order, and the spelling each of them carries. -/
class Vocabulary (α : Type) where
  /-- Every member, in the order the specification lists them. -/
  all : List α
  /-- The spelling a member carries in contracts, records and rendered output. -/
  asStr : α → String
  mem_all : ∀ member, member ∈ all
  spellings_nodup : (all.map asStr).Nodup

namespace Vocabulary

variable {α : Type} [Vocabulary α]

/-- Reads a member back from its spelling, or `none` for a word not in the list. -/
def fromName (name : String) : Option α :=
  (all : List α).find? fun member => asStr member == name

theorem asStr_injective : Function.Injective (asStr : α → String) :=
  fun a b h => List.inj_on_of_nodup_map spellings_nodup (mem_all a) (mem_all b) h

@[simp]
theorem asStr_inj {a b : α} : asStr a = asStr b ↔ a = b :=
  asStr_injective.eq_iff

/-- **Round trip of a vocabulary.** A member is read back from its own spelling. -/
@[simp]
theorem fromName_asStr (member : α) : fromName (asStr member) = some member := by
  unfold fromName
  rw [List.find?_eq_some_iff_append]
  obtain ⟨before, after, hall⟩ := List.append_of_mem (mem_all member)
  refine ⟨by simp, before, after, hall, fun other hother => ?_⟩
  have hnodup := @spellings_nodup α _
  rw [hall, List.map_append, List.nodup_append] at hnodup
  have hne := hnodup.2.2 (asStr other) (List.mem_map_of_mem hother) (asStr member) (by simp)
  simpa using fun h => hne (congrArg asStr h)

end Vocabulary

end OnoSendai
