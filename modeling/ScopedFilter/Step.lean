/-!
Steps of reading. A step looks at the symbols ahead, and either takes at least one of them and
yields a value or stops in front of the symbol it cannot use, saying what it expected. What it
leaves is always an end part of what it was given, so a chain of steps comes to an end.
-/

namespace ScopedFilter

/-- `σ` are the symbols, `ε` the expectations and `α` the values. -/
inductive Reply (σ ε α : Type) where
  | done (value : α) (rest : List σ)
  | stuck (expected : List ε) (rest : List σ)
deriving DecidableEq, Repr

namespace Reply

variable {σ ε α β : Type}

def rest : Reply σ ε α → List σ
  | done _ rest => rest
  | stuck _ rest => rest

def map (change : α → β) : Reply σ ε α → Reply σ ε β
  | done value rest => done (change value) rest
  | stuck expected rest => stuck expected rest

@[simp] theorem rest_map (change : α → β) (reply : Reply σ ε α) :
    (reply.map change).rest = reply.rest := by
  cases reply <;> rfl

end Reply

structure Step (σ ε α : Type) where
  run : List σ → Reply σ ε α
  within : ∀ input, (run input).rest <:+ input
  progress : ∀ {input value rest}, run input = .done value rest → rest.length < input.length

namespace Step

variable {σ ε α β : Type}

def fail (expected : List ε) : Step σ ε α where
  run input := .stuck expected input
  within _ := List.suffix_rfl
  progress stopped := by cases stopped

def takes (more : Nat) (value : α) : Step σ ε α where
  run input :=
    match input.drop more with
    | [] => .stuck [] input
    | _ :: rest => .done value rest
  within input := by
    split
    · exact List.suffix_rfl
    · rename_i symbol rest present
      exact ((List.suffix_cons symbol rest).trans (present ▸ List.drop_suffix more input))
  progress {input _ _} taken := by
    split at taken
    · cases taken
    · rename_i symbol rest present
      cases taken
      have shorter := congrArg List.length present
      simp only [List.length_drop, List.length_cons] at shorter
      omega

def take (value : α) : Step σ ε α := takes 0 value

def past (step : Step σ ε α) : Step σ ε α where
  run
    | [] => .stuck [] []
    | _ :: rest => step.run rest
  within
    | [] => List.suffix_rfl
    | symbol :: rest => (step.within rest).trans (List.suffix_cons symbol rest)
  progress {input _ _} taken := by
    cases input with
    | nil => cases taken
    | cons symbol tail =>
        have shorter := step.progress taken
        simp only [List.length_cons]
        omega

def look (choose : List σ → Step σ ε α) : Step σ ε α where
  run input := (choose input).run input
  within input := (choose input).within input
  progress {input _ _} := (choose input).progress

def skipping (skipped : σ → Bool) (step : Step σ ε α) : Step σ ε α where
  run input := step.run (input.dropWhile skipped)
  within input := (step.within _).trans (List.dropWhile_suffix skipped)
  progress {input _ _} taken := by
    have shorter := step.progress taken
    have suffix := (List.dropWhile_suffix (l := input) skipped).length_le
    omega

def map (change : α → β) (step : Step σ ε α) : Step σ ε β where
  run input := (step.run input).map change
  within input := by simpa using step.within input
  progress {input value rest} taken := by
    cases reply : step.run input with
    | stuck expected unread => simp [reply, Reply.map] at taken
    | done first unread =>
        simp only [reply, Reply.map, Reply.done.injEq] at taken
        have shorter := step.progress reply
        rwa [taken.2] at shorter

def bind (step : Step σ ε α) (next : α → Step σ ε β) : Step σ ε β where
  run input :=
    match step.run input with
    | .done value rest => (next value).run rest
    | .stuck expected rest => .stuck expected rest
  within input := by
    have first := step.within input
    split <;> rename_i reply
    · rw [reply] at first
      exact ((next _).within _).trans first
    · rwa [reply] at first
  progress {input value rest} taken := by
    split at taken
    · rename_i reply
      have shorter := step.progress reply
      have laterShorter := (next _).progress taken
      omega
    · cases taken

def expect [DecidableEq σ] (symbol : σ) (expected : List ε) : Step σ ε Unit :=
  look fun input => if input.head? = some symbol then take () else fail expected

@[simp] theorem run_fail (expected : List ε) (input : List σ) :
    (fail (α := α) expected).run input = .stuck expected input := rfl

@[simp] theorem run_take (value : α) (symbol : σ) (rest : List σ) :
    (take (ε := ε) value).run (symbol :: rest) = .done value rest := rfl

@[simp] theorem run_past (step : Step σ ε α) (symbol : σ) (rest : List σ) :
    (past step).run (symbol :: rest) = step.run rest := rfl

@[simp] theorem run_look (choose : List σ → Step σ ε α) (input : List σ) :
    (look choose).run input = (choose input).run input := rfl

theorem run_map_eq_done {change : α → β} {step : Step σ ε α} {input rest : List σ} {value : β} :
    (step.map change).run input = .done value rest ↔
      ∃ found, step.run input = .done found rest ∧ change found = value := by
  simp only [map]
  cases step.run input with
  | stuck expected unread => simp [Reply.map]
  | done found unread =>
      simp only [Reply.map, Reply.done.injEq]
      constructor
      · rintro ⟨rfl, rfl⟩
        exact ⟨found, ⟨rfl, rfl⟩, rfl⟩
      · rintro ⟨_, ⟨rfl, rfl⟩, rfl⟩
        exact ⟨rfl, rfl⟩

theorem run_bind_eq_done {step : Step σ ε α} {next : α → Step σ ε β} {input rest : List σ}
    {value : β} :
    (step.bind next).run input = .done value rest ↔
      ∃ found middle, step.run input = .done found middle
        ∧ (next found).run middle = .done value rest := by
  simp only [bind]
  cases step.run input with
  | stuck expected unread => simp
  | done found unread =>
      constructor
      · exact fun taken => ⟨found, unread, rfl, taken⟩
      · rintro ⟨_, _, same, taken⟩
        cases same
        exact taken

theorem run_expect_eq_done [DecidableEq σ] {symbol : σ} {expected : List ε}
    {input rest : List σ} {value : Unit} :
    (expect symbol expected).run input = .done value rest ↔ input = symbol :: rest := by
  cases input with
  | nil => simp [expect]
  | cons head tail =>
      by_cases same : head = symbol <;> simp [expect, same]

theorem run_map_eq_stuck {change : α → β} {step : Step σ ε α} {input rest : List σ}
    {expected : List ε} :
    (step.map change).run input = .stuck expected rest ↔
      step.run input = .stuck expected rest := by
  simp only [map]
  cases step.run input with
  | stuck found unread => simp [Reply.map]
  | done found unread => simp [Reply.map]

theorem run_bind_eq_stuck {step : Step σ ε α} {next : α → Step σ ε β} {input rest : List σ}
    {expected : List ε} :
    (step.bind next).run input = .stuck expected rest ↔
      step.run input = .stuck expected rest ∨ ∃ found middle,
        step.run input = .done found middle ∧ (next found).run middle = .stuck expected rest := by
  simp only [bind]
  cases step.run input with
  | stuck first unread => simp
  | done found unread =>
      constructor
      · exact fun stopped => .inr ⟨found, unread, rfl, stopped⟩
      · rintro (same | ⟨_, _, same, stopped⟩)
        · cases same
        · cases same
          exact stopped

theorem run_expect_eq_stuck [DecidableEq σ] {symbol : σ} {expected labels : List ε}
    {input rest : List σ} :
    (expect symbol expected).run input = .stuck labels rest ↔
      input.head? ≠ some symbol ∧ expected = labels ∧ input = rest := by
  cases input with
  | nil => simp [expect]
  | cons head tail => by_cases same : head = symbol <;> simp [expect, same]

/-- The reply of a step, with what termination of a chain of steps needs to know about it. -/
def measured (step : Step σ ε α) (input : List σ) :
    { reply : Reply σ ε α //
      ∀ value rest, reply = .done value rest → rest.length < input.length } :=
  ⟨step.run input, fun _ _ => step.progress⟩

/-- One operand after the other, as long as `gap?` finds a further one: it tells how many symbols
lie between an operand and the next. -/
def operandsFrom (gap? : List σ → Option Nat) (operand : Step σ ε α)
    (input : List σ) : Reply σ ε (List α) :=
  match operand.measured input with
  | ⟨.stuck expected rest, _⟩ => .stuck expected rest
  | ⟨.done first rest, shorter⟩ =>
      have := shorter first rest rfl
      match gap? rest with
      | none => .done [first] rest
      | some gap => (operandsFrom gap? operand (rest.drop gap)).map (first :: ·)
termination_by input.length
decreasing_by
  simp only [List.length_drop]
  omega

theorem operandsFrom_eq (gap? : List σ → Option Nat) (operand : Step σ ε α)
    (input : List σ) :
    operandsFrom gap? operand input =
      match operand.run input with
      | .stuck expected rest => .stuck expected rest
      | .done first rest =>
          match gap? rest with
          | none => .done [first] rest
          | some gap => (operandsFrom gap? operand (rest.drop gap)).map (first :: ·) := by
  rw [operandsFrom, show operand.run input = (operand.measured input).val from rfl]
  rcases operand.measured input with ⟨_ | _, _⟩ <;> rfl

/-- A chain of operands ends with the last one; `motive` goes back from it over the operands before
it and their values. -/
theorem operandsFrom_done {gap? : List σ → Option Nat} {operand : Step σ ε α}
    {input rest : List σ} {values : List α} {motive : List σ → List α → Prop}
    (last : ∀ {input value}, operand.run input = .done value rest → motive input [value])
    (later : ∀ {input value unread gap values}, operand.run input = .done value unread →
      gap? unread = some gap → motive (unread.drop gap) values → motive input (value :: values))
    (read : operandsFrom gap? operand input = .done values rest) : motive input values := by
  induction measure : input.length using Nat.strongRecOn generalizing input values with
  | ind length ih =>
      rw [operandsFrom_eq] at read
      cases reply : operand.run input with
      | stuck expected left => simp [reply] at read
      | done first unread =>
          have shorter := operand.progress reply
          simp only [reply] at read
          cases found : gap? unread with
          | none =>
              simp only [found, Reply.done.injEq] at read
              obtain ⟨rfl, rfl⟩ := read
              exact last reply
          | some gap =>
              have dropped := (List.drop_suffix gap unread).length_le
              simp only [found] at read
              cases more : operandsFrom gap? operand (unread.drop gap) with
              | stuck expected left => simp [more, Reply.map] at read
              | done others left =>
                  simp only [more, Reply.map, Reply.done.injEq] at read
                  obtain ⟨rfl, rfl⟩ := read
                  exact later reply found (ih _ (by omega) more rfl)

theorem operandsFrom_stuck {gap? : List σ → Option Nat} {operand : Step σ ε α} {input rest : List σ}
    {expected : List ε} {motive : List σ → Prop}
    (stuck : ∀ {input}, operand.run input = .stuck expected rest → motive input)
    (later : ∀ {input value unread gap}, operand.run input = .done value unread →
      gap? unread = some gap → motive (unread.drop gap) → motive input)
    (read : operandsFrom gap? operand input = .stuck expected rest) : motive input := by
  induction measure : input.length using Nat.strongRecOn generalizing input with
  | ind length ih =>
      rw [operandsFrom_eq] at read
      cases reply : operand.run input with
      | stuck labels left =>
          simp only [reply, Reply.stuck.injEq] at read
          rw [read.1, read.2] at reply
          exact stuck reply
      | done first unread =>
          have shorter := operand.progress reply
          simp only [reply] at read
          cases found : gap? unread with
          | none => simp [found] at read
          | some gap =>
              have dropped := (List.drop_suffix gap unread).length_le
              simp only [found] at read
              cases more : operandsFrom gap? operand (unread.drop gap) with
              | done others left => simp [more, Reply.map] at read
              | stuck labels left =>
                  simp only [more, Reply.map, Reply.stuck.injEq] at read
                  rw [read.1, read.2] at more
                  exact later reply found (ih _ (by omega) more rfl)

theorem operandsFrom_within (gap? : List σ → Option Nat) (operand : Step σ ε α)
    (input : List σ) : (operandsFrom gap? operand input).rest <:+ input := by
  induction measure : input.length using Nat.strongRecOn generalizing input with
  | ind length ih =>
      have first := operand.within input
      rw [operandsFrom_eq]
      split
      · rename_i reply
        rwa [reply] at first
      · rename_i rest reply
        rw [reply] at first
        have shorter := operand.progress reply
        split
        · exact first
        · rename_i gap _
          have dropped := (List.drop_suffix gap rest).length_le
          have tail := ih (rest.drop gap).length (by omega) (rest.drop gap) rfl
          rw [Reply.rest_map]
          exact (tail.trans (List.drop_suffix gap rest)).trans first

theorem operandsFrom_progress (gap? : List σ → Option Nat) (operand : Step σ ε α)
    {input : List σ} {values : List α} {rest : List σ}
    (taken : operandsFrom gap? operand input = .done values rest) :
    rest.length < input.length := by
  rw [operandsFrom_eq] at taken
  cases reply : operand.run input with
  | stuck expected unread => simp [reply] at taken
  | done first unread =>
      have shorter := operand.progress reply
      simp only [reply] at taken
      cases found : gap? unread with
      | none =>
          simp only [found, Reply.done.injEq] at taken
          rwa [taken.2] at shorter
      | some gap =>
          simp only [found] at taken
          have remaining := (operandsFrom_within gap? operand (unread.drop gap)).length_le
          have sameRest := congrArg Reply.rest taken
          rw [Reply.rest_map] at sameRest
          rw [sameRest, List.length_drop] at remaining
          simp only [Reply.rest] at remaining
          omega

def operands (gap? : List σ → Option Nat) (operand : Step σ ε α) : Step σ ε (List α) where
  run := operandsFrom gap? operand
  within := operandsFrom_within gap? operand
  progress := operandsFrom_progress gap? operand

end Step

end ScopedFilter
