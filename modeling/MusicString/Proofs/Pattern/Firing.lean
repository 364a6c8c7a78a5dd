import MusicString.Pattern
import MusicString.Proofs.Environment.Firing

/-!
# The events of a pattern

`Pattern.fired` lists the events that a pattern gives rise to, in order, a last one that a listener
rejected included.  What reading a pattern leaves is the environment that has received these
events, and what it returns, if it succeeds, are these events.
-/

namespace MusicString.Pattern

open Environment

variable {σ : Type}

/-- An event before those of a result. -/
def prepend (event : Event) :
    EStateM.Result ParseError (Environment σ) (List Event) →
      EStateM.Result ParseError (Environment σ) (List Event)
  | .ok events env => .ok (event :: events) env
  | .error e env => .error e env

/-- The events that come of reading and firing at most `n` tokens from a cursor on. -/
def firedUpTo : Nat → Cursor → Environment σ → List Event
  | 0, _, _ => []
  | n + 1, c, env =>
    match nextToken env.dictionary c with
    | .ok (some (start, element)) c' =>
      match fire element start env with
      | .ok event env' => event :: firedUpTo n c' env'
      | .error _ _ => env.fired element
    | _ => []

/-- The events that come of reading and firing the tokens of a text. -/
def fired (text : String) (env : Environment σ) : List Event :=
  firedUpTo (text.toList.length + 1) (.start text.toList) env

/-- One token more: it is read, then fired, then the others follow. -/
theorem fireUpTo_succ (n : Nat) (c : Cursor) (env : Environment σ) :
    fireUpTo (n + 1) c env =
      match nextToken env.dictionary c with
      | .error e _ => .error e env
      | .ok none _ => .ok [] env
      | .ok (some (start, element)) c' =>
        match fire element start env with
        | .error e env' => .error e env'
        | .ok event env' => prepend event (fireUpTo n c' env') := by
  show (match nextToken env.dictionary c with
    | .error e _ => throw e
    | .ok none _ => return []
    | .ok (some (start, element)) c' => do
      let event ← fire element start
      return event :: (← fireUpTo n c') : Run σ (List Event)) env = _
  simp only [bind]
  rcases nextToken env.dictionary c with ⟨_ | ⟨start, element⟩, c'⟩ | ⟨e, c'⟩
  · rfl
  · simp only [EStateM.bind]
    rcases fire element start env with ⟨event, env'⟩ | ⟨e, env'⟩
    · simp only
      rcases fireUpTo n c' env' with ⟨events, env''⟩ | ⟨e, env''⟩ <;> rfl
    · rfl
  · rfl

/-- All that reading a pattern can do: it returns its events, or it fails after they were fired. -/
theorem fireUpTo_cases (n : Nat) (c : Cursor) (env : Environment σ) :
    fireUpTo n c env = .ok (firedUpTo n c env) (env.receiveAll (firedUpTo n c env)) ∨
      ∃ e, fireUpTo n c env = .error e (env.receiveAll (firedUpTo n c env)) := by
  induction n generalizing c env with
  | zero => exact .inl rfl
  | succ n ih =>
    rw [fireUpTo_succ, firedUpTo]
    rcases nextToken env.dictionary c with ⟨_ | ⟨start, element⟩, c'⟩ | ⟨e, c'⟩
    · exact .inl rfl
    · rcases fire_cases element start env with
        ⟨e, heval, hfire⟩ | ⟨event, heval, hfire | ⟨id, reason, hfire⟩⟩
      · right
        simp [hfire, fired_of_error heval]
      · rcases ih c' (env.receive event) with hrest | ⟨e, hrest⟩
        · exact .inl (by simp [hfire, hrest, prepend])
        · exact .inr ⟨e, by simp [hfire, hrest, prepend]⟩
      · right
        simp [hfire, fired_of_ok heval]
    · exact .inr ⟨e, rfl⟩

theorem finalState_fireUpTo (n : Nat) (c : Cursor) (env : Environment σ) :
    finalState (fireUpTo n c) env = env.receiveAll (firedUpTo n c env) := by
  rcases fireUpTo_cases n c env with h | ⟨e, h⟩ <;> simp [finalState, h]

theorem yields_firedUpTo (n : Nat) (c : Cursor) (env : Environment σ) :
    env.Yields (firedUpTo n c env) := by
  induction n generalizing c env with
  | zero => trivial
  | succ n ih =>
    rw [firedUpTo]
    rcases nextToken env.dictionary c with ⟨_ | ⟨start, element⟩, c'⟩ | ⟨e, c'⟩
    · trivial
    · rcases fire_cases element start env with
        ⟨e, heval, hfire⟩ | ⟨event, heval, hfire | ⟨id, reason, hfire⟩⟩ <;> simp only [hfire]
      · exact yields_fired env element
      · exact ⟨⟨element, heval⟩, ih c' (env.receive event)⟩
      · exact yields_fired env element
    · trivial

end MusicString.Pattern
