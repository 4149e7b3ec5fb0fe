import Mathlib.Data.List.Basic

/-!
# Programs that interact with an environment

A program issues calls and continues with the answers. Against an environment that may answer
anything, what a program can do is the set of its paths: the events it goes through, and what is
left of it after them. A machine narrows the answers down to those a state permits.

## Main definitions

* `Signature`, `Program` — calls with their answer types, and programs over them;
* `Path`, `Reaches`, `Returns` — what a program goes through, up to a call, and to its result;
* `Program.Within` — every call of a program, whatever the answers, is one of a set;
* `Program.Justified`, `Program.Continues` — calls, and the events before them;
* `Compositional` — a property of programs that sequencing keeps;
* `Machine`, `Machine.Runs` — an environment with a state, and the events it permits.

## Main results

* `path_bind`, `reaches_bind`, `returns_bind` — the paths of two programs in sequence;
* `Machine.Runs.invariant` — what every step keeps, with the events so far, holds at the end.
-/

namespace Interaction

open List

/-- The calls a program can make, each with the type of its answer. -/
structure Signature where
  Op : Type
  Answer : Op → Type

/-- A program: it returns, or makes a call and continues with the answer. -/
inductive Program (S : Signature) (α : Type) : Type
  | ret (result : α)
  | call (op : S.Op) (next : S.Answer op → Program S α)

variable {S : Signature} {α β σ : Type}

namespace Program

/-- Runs a program and continues with its result. -/
def bind : Program S α → (α → Program S β) → Program S β
  | ret result, f => f result
  | call op next, f => call op fun answer => (next answer).bind f

instance : Monad (Program S) where
  pure := ret
  bind := bind

/-- Makes one call and returns its answer. -/
def perform (op : S.Op) : Program S (S.Answer op) :=
  call op ret

@[simp]
theorem ret_bind (result : α) (f : α → Program S β) : (ret result >>= f) = f result :=
  rfl

@[simp]
theorem call_bind (op : S.Op) (next : S.Answer op → Program S α) (f : α → Program S β) :
    (call op next >>= f) = call op fun answer => next answer >>= f :=
  rfl

end Program

/-! ### Paths -/

/-- A call together with the answer it got. -/
abbrev Event (S : Signature) : Type :=
  Sigma S.Answer

/-- The events a program can go through, whatever the environment answers, and what is left of it
after them. -/
inductive Path : Program S α → List (Event S) → Program S α → Prop
  | nil (program : Program S α) : Path program [] program
  | cons {op : S.Op} {next : S.Answer op → Program S α} {answer : S.Answer op}
      {events : List (Event S)} {rest : Program S α} (tail : Path (next answer) events rest) :
      Path (.call op next) (⟨op, answer⟩ :: events) rest

/-- The program can make the call `op` right after the events. -/
def Reaches (program : Program S α) (events : List (Event S)) (op : S.Op) : Prop :=
  ∃ next, Path program events (.call op next)

/-- The program can return the result right after the events. -/
def Returns (program : Program S α) (events : List (Event S)) (result : α) : Prop :=
  Path program events (.ret result)

variable {before after : List (Event S)} {rest : Program S α}

section Paths

variable {program : Program S α} {events : List (Event S)} {op op' : S.Op} {result result' : α}
  {next : S.Answer op → Program S α} {f : α → Program S β}

@[simp]
theorem path_ret : Path (.ret result) events rest ↔ events = [] ∧ rest = .ret result := by
  constructor
  · rintro ⟨⟩
    exact ⟨rfl, rfl⟩
  · rintro ⟨rfl, rfl⟩
    exact .nil _

theorem path_call :
    Path (.call op next) events rest ↔ (events = [] ∧ rest = .call op next) ∨
      ∃ answer tail, events = ⟨op, answer⟩ :: tail ∧ Path (next answer) tail rest := by
  constructor
  · rintro (_ | h)
    · exact .inl ⟨rfl, rfl⟩
    · exact .inr ⟨_, _, rfl, h⟩
  · rintro (⟨rfl, rfl⟩ | ⟨answer, tail, rfl, h⟩)
    · exact .nil _
    · exact .cons h

/-- **Sequencing.** A path of two programs in sequence is inside the first, or goes through a
result of the first and on through the second. -/
theorem path_bind {rest : Program S β} (h : Path (program >>= f) events rest) :
    (∃ left, Path program events left ∧ rest = left >>= f) ∨
      ∃ before result after, Returns program before result ∧ Path (f result) after rest ∧
        events = before ++ after := by
  induction program generalizing events with
  | ret result => exact .inr ⟨[], result, events, .nil _, h, rfl⟩
  | call op next ih =>
    rcases path_call.1 h with ⟨rfl, rfl⟩ | ⟨answer, tail, rfl, htail⟩
    · exact .inl ⟨_, .nil _, rfl⟩
    · rcases ih answer htail with ⟨left, hleft, rfl⟩ | ⟨before, result, after, hret, hrest, rfl⟩
      · exact .inl ⟨left, .cons hleft, rfl⟩
      · exact .inr ⟨_, result, after, .cons hret, hrest, rfl⟩

theorem Returns.bind {rest : Program S β} (h : Returns program before result)
    (hrest : Path (f result) after rest) : Path (program >>= f) (before ++ after) rest := by
  induction program generalizing before with
  | ret value =>
    obtain ⟨rfl, hval⟩ := path_ret.1 h
    cases hval
    exact hrest
  | call op next ih =>
    rcases path_call.1 h with ⟨_, hret⟩ | ⟨answer, tail, rfl, htail⟩
    · cases hret
    · exact .cons (ih answer htail)

theorem Path.bind_left (h : Path program events rest) :
    Path (program >>= f) events (rest >>= f) := by
  induction h with
  | nil => exact .nil _
  | cons tail ih => exact .cons ih

@[simp]
theorem not_reaches_ret : ¬ Reaches (.ret result) events op := by
  rintro ⟨next, h⟩
  cases (path_ret.1 h).2

@[simp]
theorem returns_ret : Returns (.ret result) events result' ↔ events = [] ∧ result' = result := by
  simp [Returns]

@[simp]
theorem reaches_call : Reaches (.call op next) events op' ↔ (events = [] ∧ op' = op) ∨
    ∃ answer tail, events = ⟨op, answer⟩ :: tail ∧ Reaches (next answer) tail op' := by
  constructor
  · rintro ⟨next', h⟩
    rcases path_call.1 h with ⟨rfl, hop⟩ | ⟨answer, tail, rfl, htail⟩
    · cases hop
      exact .inl ⟨rfl, rfl⟩
    · exact .inr ⟨answer, tail, rfl, next', htail⟩
  · rintro (⟨rfl, rfl⟩ | ⟨answer, tail, rfl, next', h⟩)
    · exact ⟨next, .nil _⟩
    · exact ⟨next', .cons h⟩

@[simp]
theorem returns_call : Returns (.call op next) events result ↔
    ∃ answer tail, events = ⟨op, answer⟩ :: tail ∧ Returns (next answer) tail result := by
  simp [Returns, path_call]

/-- What a sequence returns went through a result of its first program. -/
theorem returns_bind {result : β} : Returns (program >>= f) events result ↔
    ∃ before mid after, Returns program before mid ∧ Returns (f mid) after result ∧
      events = before ++ after := by
  constructor
  · intro h
    rcases path_bind h with ⟨left, hleft, hrest⟩ | h
    · cases left with
      | ret mid => exact ⟨events, mid, [], hleft, by rw [Returns]; exact hrest ▸ .nil _, by simp⟩
      | call op next => cases hrest
    · exact h
  · rintro ⟨before, mid, after, hmid, h, rfl⟩
    exact hmid.bind h

/-- A call a sequence reaches is reached by its first program, or after it by its second. -/
theorem reaches_bind (h : Reaches (program >>= f) events op) : Reaches program events op ∨
    ∃ before mid after, Returns program before mid ∧ Reaches (f mid) after op ∧
      events = before ++ after := by
  obtain ⟨next, h⟩ := h
  rcases path_bind h with ⟨left, hleft, hrest⟩ | ⟨before, mid, after, hmid, hafter, rfl⟩
  · cases left with
    | ret mid => exact .inr ⟨events, mid, [], hleft, ⟨next, hrest ▸ .nil _⟩, by simp⟩
    | call op' next' =>
      cases hrest
      exact .inl ⟨next', hleft⟩
  · exact .inr ⟨before, mid, after, hmid, ⟨next, hafter⟩, rfl⟩

theorem Returns.call {answer : S.Answer op} (h : Returns (next answer) events result) :
    Returns (.call op next) (⟨op, answer⟩ :: events) result :=
  Path.cons h

theorem Reaches.path (h : Reaches program events op) (answer : S.Answer op) :
    ∃ rest, Path program (events ++ [⟨op, answer⟩]) rest := by
  obtain ⟨next, hpath⟩ := h
  generalize hcall : Program.call op next = reached at hpath
  induction hpath with
  | nil =>
    subst hcall
    exact ⟨next answer, .cons (.nil _)⟩
  | cons tail ih =>
    obtain ⟨rest, hrest⟩ := ih hcall
    exact ⟨rest, .cons hrest⟩

theorem Path.of_initial (h : Path program events rest) (hevents : events = before ++ after) :
    ∃ mid, Path program before mid := by
  induction h generalizing before with
  | nil program =>
    obtain ⟨rfl, -⟩ := append_eq_nil_iff.1 hevents.symm
    exact ⟨program, .nil _⟩
  | cons tail ih =>
    cases before with
    | nil => exact ⟨_, .nil _⟩
    | cons head before =>
      obtain ⟨rfl, hrest⟩ := cons.inj hevents
      obtain ⟨mid, hmid⟩ := ih hrest
      exact ⟨mid, .cons hmid⟩

theorem Path.reaches (h : Path program events rest) {event : Event S}
    (hevents : events = before ++ event :: after) : Reaches program before event.1 := by
  induction h generalizing before with
  | nil => simp at hevents
  | cons tail ih =>
    cases before with
    | nil =>
      obtain ⟨rfl, -⟩ := cons.inj hevents
      exact ⟨_, .nil _⟩
    | cons head before =>
      obtain ⟨rfl, hrest⟩ := cons.inj hevents
      obtain ⟨next, h⟩ := ih hrest
      exact ⟨next, .cons h⟩

end Paths

/-! ### Answers given in advance -/

/-- The program returns the result after the events, with every answer taken from `answers`. -/
def ReturnsWith (answers : (op : S.Op) → S.Answer op) (program : Program S α)
    (events : List (Event S)) (result : α) : Prop :=
  Returns program events result ∧ ∀ event ∈ events, event.2 = answers event.1

variable {f : α → Program S β}

namespace ReturnsWith

variable {answers : (op : S.Op) → S.Answer op} {program : Program S α} {events : List (Event S)}
  {op : S.Op} {result : α}

theorem ret (result : α) : ReturnsWith answers (.ret result : Program S α) [] result :=
  ⟨.nil _, by simp⟩

theorem call {next : S.Answer op → Program S α} {answer : S.Answer op}
    (hanswer : answer = answers op) (h : ReturnsWith answers (next answer) events result) :
    ReturnsWith answers (.call op next) (⟨op, answer⟩ :: events) result := by
  refine ⟨.call h.1, fun event hevent => ?_⟩
  rcases mem_cons.1 hevent with rfl | hevent
  · exact hanswer
  · exact h.2 event hevent

theorem bind {final : β} (h : ReturnsWith answers program before result)
    (hf : ReturnsWith answers (f result) after final) :
    ReturnsWith answers (program >>= f) (before ++ after) final := by
  refine ⟨returns_bind.2 ⟨before, result, after, h.1, hf.1, rfl⟩, fun event hevent => ?_⟩
  rcases mem_append.1 hevent with hevent | hevent
  · exact h.2 event hevent
  · exact hf.2 event hevent

end ReturnsWith

/-! ### Bounding the calls of a program -/

variable {events : List (Event S)} {op : S.Op}

namespace Program

/-- Every call the program can make, whatever it is answered, is one of `allowed`. -/
def Within (allowed : S.Op → Prop) : Program S α → Prop
  | ret _ => True
  | call op next => allowed op ∧ ∀ answer, (next answer).Within allowed

variable {allowed allowed' : S.Op → Prop} {program : Program S α}

@[simp]
theorem within_call {next : S.Answer op → Program S α} :
    (call op next).Within allowed ↔ allowed op ∧ ∀ answer, (next answer).Within allowed :=
  Iff.rfl

/-- A program followed by another makes allowed calls when the other does after every result the
first can return. -/
theorem Within.bind_of_returns (h : program.Within allowed)
    (hf : ∀ events result, Returns program events result → (f result).Within allowed) :
    (program >>= f).Within allowed := by
  induction program with
  | ret result => exact hf [] result (.nil _)
  | call op next ih =>
    exact ⟨h.1, fun answer => ih answer (h.2 answer) fun events result hret =>
      hf (⟨op, answer⟩ :: events) result (.cons hret)⟩

theorem Within.bind (h : program.Within allowed) (hf : ∀ result, (f result).Within allowed) :
    (program >>= f).Within allowed :=
  h.bind_of_returns fun _ result _ => hf result

theorem Within.mono (h : program.Within allowed) (himp : ∀ op, allowed op → allowed' op) :
    program.Within allowed' := by
  induction program with
  | ret result => trivial
  | call op next ih => exact ⟨himp op h.1, fun answer => ih answer (h.2 answer)⟩

theorem Within.of_mem (h : program.Within allowed) (hpath : Path program events rest)
    {event : Event S} (hevent : event ∈ events) : allowed event.1 := by
  induction hpath with
  | nil => simp at hevent
  | cons tail ih =>
    rcases mem_cons.1 hevent with rfl | hevent
    · exact h.1
    · exact ih (h.2 _) hevent

theorem Within.of_reaches (h : program.Within allowed) (hreach : Reaches program events op) :
    allowed op := by
  obtain ⟨next, hpath⟩ := hreach
  generalize hrest : call op next = rest at hpath
  induction hpath with
  | nil => subst hrest; exact h.1
  | cons tail ih => exact ih (h.2 _) hrest

end Program

/-! ### Properties kept by sequencing -/

/-- A property of programs that returning has and sequencing keeps. -/
structure Compositional (C : ∀ α : Type, Program S α → Prop) : Prop where
  ret : ∀ {α : Type} (result : α), C α (.ret result)
  bind : ∀ {α β : Type} {program : Program S α} {f : α → Program S β},
    C α program → (∀ result, C β (f result)) → C β (program >>= f)

theorem compositional_within (allowed : S.Op → Prop) :
    Compositional (S := S) fun _ program => program.Within allowed where
  ret _ := trivial
  bind h hf := h.bind hf

namespace Program

/-- Every call the program can make is one that the events before it justify. -/
def Justified (justifies : List (Event S) → S.Op → Prop) (program : Program S α) : Prop :=
  ∀ events op, Reaches program events op → justifies events op

/-- Each event of `next` can be followed by further events and a call that `next` names. -/
def Continues (next : Event S → List (Event S) → S.Op → Prop) (program : Program S α) : Prop :=
  ∀ events event tail op, Reaches program events event.1 → next event tail op →
    Reaches program (events ++ event :: tail) op

end Program

theorem compositional_justified {justifies : List (Event S) → S.Op → Prop}
    (hmono : ∀ before events op, justifies events op → justifies (before ++ events) op) :
    Compositional (S := S) fun _ program => program.Justified justifies where
  ret _ _ _ h := absurd h not_reaches_ret
  bind h hf events op hreach := by
    rcases reaches_bind hreach with hfirst | ⟨before, mid, after, -, hafter, rfl⟩
    · exact h events op hfirst
    · exact hmono before after op (hf mid after op hafter)

variable {program : Program S α}

theorem Reaches.bind_left (h : Reaches program events op) (f : α → Program S β) :
    Reaches (program >>= f) events op := by
  obtain ⟨next, hpath⟩ := h
  exact ⟨_, hpath.bind_left⟩

theorem Returns.bind_reaches {result : α} (h : Returns program before result)
    (hreach : Reaches (f result) after op) : Reaches (program >>= f) (before ++ after) op := by
  obtain ⟨next, hpath⟩ := hreach
  exact ⟨next, h.bind hpath⟩

theorem compositional_continues {next : Event S → List (Event S) → S.Op → Prop} :
    Compositional (S := S) fun _ program => program.Continues next where
  ret _ _ _ _ _ h := absurd h not_reaches_ret
  bind {_ _ program f} h hf events event tail op hreach hnext := by
    rcases reaches_bind hreach with hfirst | ⟨before, mid, after, hmid, hafter, rfl⟩
    · exact (h events event tail op hfirst hnext).bind_left f
    · rw [append_assoc]
      exact hmid.bind_reaches (hf mid after event tail op hafter hnext)

theorem Program.Within.justified {allowed : S.Op → Prop} {justifies : List (Event S) → S.Op → Prop}
    (h : program.Within allowed) (hall : ∀ events op, allowed op → justifies events op) :
    program.Justified justifies :=
  fun events op hreach => hall events op (h.of_reaches hreach)

theorem Program.Within.continues {allowed : S.Op → Prop}
    {next : Event S → List (Event S) → S.Op → Prop} (h : program.Within allowed)
    (hnone : ∀ event tail op, allowed event.1 → ¬ next event tail op) : program.Continues next :=
  fun _ event tail op hreach hnext => absurd hnext (hnone event tail op (h.of_reaches hreach))

/-! ### Machines -/

/-- An environment with a state: which events are possible in a state, and the state after. -/
structure Machine (ε σ : Type) where
  step : σ → ε → σ → Prop

/-- The events a machine permits from a state, and the state after them. -/
inductive Machine.Runs {ε : Type} (M : Machine ε σ) : σ → List ε → σ → Prop
  | nil (state : σ) : M.Runs state [] state
  | cons {state mid final : σ} {event : ε} {events : List ε}
      (head : M.step state event mid) (tail : M.Runs mid events final) :
      M.Runs state (event :: events) final

namespace Machine.Runs

variable {ε : Type} {M : Machine ε σ} {state final : σ} {events : List ε}

theorem of_append {before after : List ε} (h : M.Runs state (before ++ after) final) :
    ∃ mid, M.Runs state before mid ∧ M.Runs mid after final := by
  induction before generalizing state with
  | nil => exact ⟨state, .nil _, h⟩
  | cons event before ih =>
    cases h with
    | cons head tail =>
      obtain ⟨mid, hbefore, hafter⟩ := ih tail
      exact ⟨mid, .cons head hbefore, hafter⟩

theorem append {mid : σ} {before after : List ε} (h : M.Runs state before mid)
    (hafter : M.Runs mid after final) : M.Runs state (before ++ after) final := by
  induction h with
  | nil => exact hafter
  | cons head tail ih => exact .cons head (ih hafter)

/-- **Invariance.** What holds of no events and the first state, and is kept by every step with the
events so far, holds of all events and the last state. -/
theorem invariant (inv : List ε → σ → Prop) (h : M.Runs state events final) (hinv : inv [] state)
    (hstep : ∀ before event after s s', events = before ++ event :: after →
      M.step s event s' → inv before s → inv (before ++ [event]) s') : inv events final := by
  have hgo : ∀ {done rest : List ε} {mid : σ}, M.Runs mid rest final → events = done ++ rest →
      inv done mid → inv events final := by
    clear h
    intro done rest mid hrest
    induction hrest generalizing done with
    | nil =>
      intro hevents hmid
      rwa [hevents, append_nil]
    | cons head tail ih =>
      intro hevents hmid
      refine ih (hevents.trans (append_cons _ _ _)) ?_
      exact hstep done _ _ _ _ hevents head hmid
  exact hgo h rfl hinv

end Machine.Runs

end Interaction
