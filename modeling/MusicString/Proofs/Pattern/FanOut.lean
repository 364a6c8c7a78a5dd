import MusicString.Proofs.Environment.FanOut
import MusicString.Proofs.Pattern.Failure
import MusicString.Proofs.Pattern.Streaming

/-!
# Offers of a pattern

Reading a pattern offers its events to the listeners one after the other, each to all listeners in
the order of their registration.  A listener that rejects an event ends this: the event is the last
one, the listeners after it do not see it, and the failure names the listener and the kind of the
event and stands where the token starts.

* `Pattern.watchedResult`: the same result, with the listeners watched;
* `Pattern.FansOut`: the offers of a pattern, one case for a rejection and one for none;
* `Pattern.parseFragment_fansOut`: every pattern fans out, and logs hold what they were offered.
-/

namespace MusicString.Pattern

open Environment

variable {σ : Type}

/-- The failure of a result. -/
def failure? {τ α : Type} : EStateM.Result ParseError τ α → Option ParseError
  | .ok _ _ => none
  | .error e _ => some e

/-- The same result in a watched environment, after the given offers. -/
def watchedResult {α : Type} (offers : List Offer) :
    EStateM.Result ParseError (Environment σ) α →
      EStateM.Result ParseError (Environment (σ × List Offer)) α
  | .ok a env => .ok a (env.watched offers)
  | .error e env => .error e (env.watched offers)

/-- The offers of events to `count` listeners, all of which take them. -/
def takenByAll (events : List Event) (count : Nat) : List Offer :=
  events.flatMap fun event => Offer.taken event 0 count

/-- The offers of events to listeners, and the failure that a rejection is. -/
inductive FansOut (listeners : List (ListenerId × Listener σ)) :
    List Event → List Offer → Option ParseError → Prop
  /-- No listener rejects an event, and there may be a failure of another kind. -/
  | taken {events : List Event} {failure : Option ParseError} :
    (∀ e, failure = some e → e.kind ≠ .listener) →
    FansOut listeners events (takenByAll events listeners.length) failure
  /-- The listener in place `j` rejects the last event. -/
  | rejected {before : List Event} {event : Event} {j position : Nat} {id : ListenerId}
    {l : Listener σ} {reason : String} :
    listeners[j]? = some (id, l) →
    FansOut listeners (before ++ [event])
      (takenByAll before listeners.length ++ Offer.taken event 0 j ++ [⟨j, event, some reason⟩])
      (some ⟨.rejected id event.kind reason, position⟩)

theorem FansOut.cons {listeners : List (ListenerId × Listener σ)} {events : List Event}
    {offers : List Offer} {failure : Option ParseError}
    (h : FansOut listeners events offers failure) (event : Event) :
    FansOut listeners (event :: events) (Offer.taken event 0 listeners.length ++ offers)
      failure := by
  cases h with
  | taken hkind => exact .taken hkind
  | @rejected before last j position id l reason hl =>
    have h : FansOut listeners ((event :: before) ++ [last])
        (takenByAll (event :: before) listeners.length ++ Offer.taken last 0 j ++
          [⟨j, last, some reason⟩]) (some ⟨.rejected id last.kind reason, position⟩) := .rejected hl
    simpa [takenByAll, List.append_assoc] using h

theorem nextToken_kind_ne {d : Dictionary} {c c' : Cursor} {e : ParseError}
    (h : nextToken d c = .error e c') : e.kind ≠ .listener := by
  have hnext := Frame.follows_nextToken d rfl (Frame.places_start ⟨c.pos, c.rest, 0, [], rfl⟩)
  rw [List.append_nil, Nat.add_zero, h] at hnext
  cases hnext with
  | error he _ => exact he.kind_ne

/-- Reading a pattern while the listeners are watched, and the offers that it makes. -/
theorem fansOut_fireUpTo (n : Nat) (c : Cursor) (env : Environment σ) (offers : List Offer) :
    ∃ made, fireUpTo n c (env.watched offers) = watchedResult (offers ++ made) (fireUpTo n c env) ∧
      FansOut env.listeners (firedUpTo n c env) made (failure? (fireUpTo n c env)) := by
  induction n generalizing c env offers with
  | zero => exact ⟨[], by rw [List.append_nil]; rfl, .taken fun e h => by cases h⟩
  | succ n ih =>
    have hdictionary : (env.watched offers).dictionary = env.dictionary := rfl
    rw [fireUpTo_succ, fireUpTo_succ, firedUpTo, hdictionary]
    rcases hnext : nextToken env.dictionary c with ⟨_ | ⟨start, element⟩, c'⟩ | ⟨e, c'⟩
    · exact ⟨[], by rw [List.append_nil]; rfl, .taken fun e h => by cases h⟩
    · rcases fire_watched element start env offers with
        ⟨e, heval, hfire, hwatched⟩ | ⟨event, heval, ⟨hfire, hwatched⟩ |
          ⟨j, id, l, reason, hl, hfire, hwatched⟩⟩ <;> simp only [hfire, hwatched]
      · refine ⟨[], by rw [List.append_nil]; rfl, ?_⟩
        rw [fired_of_error heval]
        exact .taken fun e' h => by
          cases h
          exact e.kind_ne_listener
      · -- The event was taken by all listeners, and the rest of the pattern follows.
        obtain ⟨made, hrest, hfans⟩ :=
          ih c' (env.receive event) (offers ++ Offer.taken event 0 env.listeners.length)
        rw [listeners_receive] at hfans
        refine ⟨Offer.taken event 0 env.listeners.length ++ made, ?_, ?_⟩
        · rw [hrest, List.append_assoc]
          cases fireUpTo n c' (env.receive event) <;> rfl
        · have hcons := hfans.cons event
          cases hresult : fireUpTo n c' (env.receive event) <;> rw [hresult] at hcons <;>
            exact hcons
      · refine ⟨Offer.taken event 0 j ++ [⟨j, event, some reason⟩], ?_, ?_⟩
        · rw [← List.append_assoc]
          rfl
        · rw [fired_of_ok heval]
          show FansOut env.listeners ([] ++ [event])
            (takenByAll [] env.listeners.length ++ Offer.taken event 0 j ++
              [⟨j, event, some reason⟩])
            (some ⟨.rejected id event.kind reason, start⟩)
          exact .rejected hl
    · refine ⟨[], by rw [List.append_nil]; rfl, .taken fun e' h => ?_⟩
      cases h
      exact nextToken_kind_ne hnext

/-! ### What each listener is offered -/

theorem eventsTo_taken (event : Event) (first count place : Nat) :
    Offer.eventsTo place (Offer.taken event first count) =
      if first ≤ place ∧ place < first + count then [event] else [] := by
  induction count generalizing first with
  | zero =>
    rw [Offer.taken_zero, if_neg (by omega)]
    rfl
  | succ count ih =>
    rw [Offer.taken_succ, ← List.singleton_append, eventsTo_append, ih]
    by_cases hfirst : first = place
    · rw [if_neg (by omega), if_pos (by omega)]
      simp [Offer.eventsTo, hfirst]
    · have hnone : Offer.eventsTo place [⟨first, event, none⟩] = [] := by
        simp [Offer.eventsTo, hfirst]
      rw [hnone, List.nil_append]
      split
      · rw [if_pos (by omega)]
      · rw [if_neg (by omega)]

theorem eventsTo_takenByAll (events : List Event) {count place : Nat} (h : place < count) :
    Offer.eventsTo place (takenByAll events count) = events := by
  induction events with
  | nil => rfl
  | cons event later ih =>
    rw [takenByAll, List.flatMap_cons, eventsTo_append, eventsTo_taken, if_pos (by omega)]
    exact congrArg (event :: ·) ih

theorem FansOut.eventsTo_of_success {listeners : List (ListenerId × Listener σ)}
    {events : List Event} {offers : List Offer} (h : FansOut listeners events offers none)
    {place : Nat} (hplace : place < listeners.length) : Offer.eventsTo place offers = events := by
  generalize hfailure : (none : Option ParseError) = failure at h
  cases h with
  | taken _ => exact eventsTo_takenByAll events hplace
  | rejected _ => cases hfailure

theorem rejection_of_mem_taken {event : Event} {first count : Nat} {o : Offer}
    (h : o ∈ Offer.taken event first count) : o.rejection = none := by
  obtain ⟨place, -, rfl⟩ := List.mem_map.1 h
  rfl

theorem rejection_of_mem_takenByAll {events : List Event} {count : Nat} {o : Offer}
    (h : o ∈ takenByAll events count) : o.rejection = none := by
  obtain ⟨event, -, hmem⟩ := List.mem_flatMap.1 h
  exact rejection_of_mem_taken hmem

/-- No listener has rejected an event: each of them was offered all events of the pattern. -/
structure TakenByAll (text : String) (env : Environment σ) (offers : List Offer) : Prop where
  inOrder : offers = takenByAll (fired text env) env.listeners.length
  offered : ∀ place < env.listeners.length, Offer.eventsTo place offers = fired text env
  failure : ∀ e env', parseFragment text env = .error e env' → e.kind ≠ .listener

/--
The listener in place `j` has rejected the last event of the pattern, which the listeners before it
have taken and those after it were not offered.
-/
structure RejectedBy (text : String) (env : Environment σ) (offers : List Offer)
    (before : List Event) (event : Event) (j : Nat) (reason : String) : Prop where
  last : fired text env = before ++ [event]
  inOrder : offers = takenByAll before env.listeners.length ++ Offer.taken event 0 j ++
    [⟨j, event, some reason⟩]
  offered : ∀ place ≤ j, Offer.eventsTo place offers = before ++ [event]
  spared : ∀ place, j < place → place < env.listeners.length → Offer.eventsTo place offers = before
  failure : ∃ id l t e env' name, env.listeners[j]? = some (id, l) ∧
    (tokens text)[before.length]? = some t ∧ parseFragment text env = .error e env' ∧
    e.kind = .listener ∧ e.position = t.offset ∧ event.Named name ∧
    e.message =
      "listener #" ++ toString id.number ++ " rejected " ++ name ++ " event: " ++ reason

theorem takenByAll_of_fansOut {text : String} {env : Environment σ} {offers : List Offer}
    (h : FansOut env.listeners (fired text env) offers (failure? (parseFragment text env)))
    (hnone : ∀ o ∈ offers, o.rejection = none) : TakenByAll text env offers := by
  generalize hfired : fired text env = events at h
  generalize hfailure : failure? (parseFragment text env) = failure at h
  cases h with
  | rejected hl =>
    have hlast := hnone _ (List.mem_append_right _ List.mem_cons_self)
    cases hlast
  | taken hkind =>
    refine ⟨by rw [hfired], fun place hplace => ?_, fun e env' hresult => ?_⟩
    · rw [hfired, eventsTo_takenByAll events hplace]
    · rw [hresult] at hfailure
      exact hkind e hfailure.symm

theorem rejectedBy_of_fansOut {text : String} {env : Environment σ} {offers : List Offer} {j : Nat}
    {event : Event} {reason : String}
    (h : FansOut env.listeners (fired text env) offers (failure? (parseFragment text env)))
    (hmem : ⟨j, event, some reason⟩ ∈ offers) :
    ∃ before, RejectedBy text env offers before event j reason := by
  generalize hfired : fired text env = events at h
  generalize hfailure : failure? (parseFragment text env) = failure at h
  cases h with
  | taken hkind => cases rejection_of_mem_takenByAll hmem
  | @rejected before last j' position id l reason' hl =>
    -- The only offer with a rejection is the last one.
    have hlast : (⟨j, event, some reason⟩ : Offer) = ⟨j', last, some reason'⟩ := by
      rcases List.mem_append.1 hmem with hmem | hmem
      · rcases List.mem_append.1 hmem with hmem | hmem
        · cases rejection_of_mem_takenByAll hmem
        · cases rejection_of_mem_taken hmem
      · exact List.mem_singleton.1 hmem
    cases hlast
    have hplace : j < env.listeners.length := (List.getElem?_eq_some_iff.1 hl).1
    have hevents {place : Nat} (hlt : place < env.listeners.length) :
        Offer.eventsTo place (takenByAll before env.listeners.length ++ Offer.taken event 0 j ++
          [⟨j, event, some reason⟩]) = before ++ (if place ≤ j then [event] else []) := by
      rw [eventsTo_append, eventsTo_append, eventsTo_takenByAll before hlt, eventsTo_taken,
        List.append_assoc]
      rcases Nat.lt_trichotomy place j with hlt | rfl | hgt
      · rw [if_pos (by omega), if_pos (by omega)]
        simp [Offer.eventsTo, Nat.ne_of_gt hlt]
      · rw [if_neg (by omega), if_pos (Nat.le_refl _)]
        simp [Offer.eventsTo]
      · rw [if_neg (by omega), if_neg (by omega)]
        simp [Offer.eventsTo, Nat.ne_of_lt hgt]
    refine ⟨before, hfired, rfl, fun place hle => ?_, fun place hlt hlength => ?_, ?_⟩
    · rw [hevents (Nat.lt_of_le_of_lt hle hplace), if_pos hle]
    · rw [hevents hlength, if_neg (Nat.not_le.2 hlt), List.append_nil]
    · cases hresult : parseFragment text env with
      | ok events env' =>
        rw [hresult] at hfailure
        cases hfailure
      | error e env' =>
        rw [hresult] at hfailure
        cases hfailure
        obtain ⟨t, ht, hposition⟩ := position_of_rejection hresult rfl hfired
        exact ⟨id, l, t, _, env', event.kind, hl, ht, rfl, rfl, hposition, Event.named_iff.2 rfl,
          message_rejected id event.kind reason⟩

theorem finalState_watched {text : String} {env : Environment σ} {offers : List Offer}
    (h : parseFragment text (env.watched []) = watchedResult offers (parseFragment text env)) :
    finalState (parseFragment text) (env.watched []) =
      (finalState (parseFragment text) env).watched offers := by
  unfold finalState
  rw [h]
  cases parseFragment text env <;> rfl

/--
**Fan-out.**  The events of a pattern are offered one after the other, each to all listeners in the
order of their registration, up to a rejection, which ends the pattern.  A log holds the events that
its listener was offered, and these are the events returned if the pattern succeeds.
-/
theorem parseFragment_fansOut (text : String) (env : Environment σ) :
    ∃ offers, parseFragment text (env.watched []) = watchedResult offers (parseFragment text env) ∧
      ((∀ o ∈ offers, o.rejection = none) → TakenByAll text env offers) ∧
      (∀ j event reason, ⟨j, event, some reason⟩ ∈ offers →
        ∃ before, RejectedBy text env offers before event j reason) ∧
      ∀ place log, env.LogsAt place log →
        log (finalState (parseFragment text) env).state =
          log env.state ++ Offer.eventsTo place offers ∧
        ∀ events env', parseFragment text env = .ok events env' →
          log env'.state = log env.state ++ events := by
  obtain ⟨offers, hwatched, hfans⟩ :=
    fansOut_fireUpTo (text.toList.length + 1) (.start text.toList) env []
  rw [List.nil_append] at hwatched
  change parseFragment text (env.watched []) = watchedResult offers (parseFragment text env)
    at hwatched
  change FansOut env.listeners (fired text env) offers (failure? (parseFragment text env)) at hfans
  refine ⟨offers, hwatched, takenByAll_of_fansOut hfans, fun j event reason =>
    rejectedBy_of_fansOut hfans, fun place log hlogs => ?_⟩
  have hlog : log (finalState (parseFragment text) env).state =
      log env.state ++ Offer.eventsTo place offers := by
    have hlog := hlogs.log_watched (fired text (env.watched []))
    have hfinal : finalState (parseFragment text) (env.watched []) =
        (env.watched []).receiveAll (fired text (env.watched [])) :=
      finalState_fireUpTo (text.toList.length + 1) (.start text.toList) (env.watched [])
    rw [← hfinal, finalState_watched hwatched] at hlog
    exact hlog
  refine ⟨hlog, fun events env' hresult => ?_⟩
  -- Without a failure nothing was rejected, so the log's listener was offered all events.
  rw [hresult] at hfans
  obtain ⟨id, record, hrecorder, -⟩ := hlogs.records
  have hoffered : Offer.eventsTo place offers = fired text env :=
    hfans.eventsTo_of_success (List.getElem?_eq_some_iff.1 hrecorder).1
  have hevents : events = fired text env := by
    rcases fireUpTo_cases (text.toList.length + 1) (.start text.toList) env with h | ⟨e, h⟩
    · exact (EStateM.Result.ok.inj (hresult.symm.trans h)).1
    · cases hresult.symm.trans h
  rw [finalState, hresult, hoffered, ← hevents] at hlog
  exact hlog

/-- A listener that rejects voices and takes all other events. -/
def voiceless : Listener σ where
  override? callback := some fun _ s => if callback = .voice then .error "muted" s else .ok () s

theorem finalState_voiceless (event : Event) (s : σ) :
    finalState (voiceless.deliver event) s = s := by
  rw [finalState, Listener.deliver_of_override (l := voiceless) rfl]
  by_cases hvoice : event.entry.callback = .voice <;> simp only [hvoice, if_true, if_false]

/-- An environment with a listener that rejects voices between two logs. -/
def rejectsVoices : Environment (List Event × List Event) :=
  { Environment.ofDictionary .empty ([], []) with
    listeners := [
      (⟨0⟩, .recorder fun event s => (s.1 ++ [event], s.2)),
      (⟨1⟩, voiceless),
      (⟨2⟩, .recorder fun event s => (s.1, s.2 ++ [event]))] }

theorem logsAt_rejectsVoices : rejectsVoices.LogsAt 2 Prod.snd where
  records := ⟨⟨2⟩, _, rfl, fun _ _ => rfl⟩
  others := by
    intro j id l hj hl event s
    rcases j with _ | _ | _ | j
    · cases hl
      rw [Listener.deliver_recorder]
      rfl
    · cases hl
      rw [finalState_voiceless]
    · exact absurd rfl hj
    · cases hl

/-- The voice is the second event: the log before its rejection has it, the one after does not. -/
theorem parseFragment_fansOut_voice :
    ∃ offers before,
      RejectedBy "T120 V1" rejectsVoices offers before (.voice (.nearest 1)) 1 "muted" ∧
      (finalState (parseFragment "T120 V1") rejectsVoices).state.2 = Offer.eventsTo 2 offers := by
  obtain ⟨offers, hwatched, -, hrejected, hlog⟩ := parseFragment_fansOut "T120 V1" rejectsVoices
  have hlast : offers.getLast? = some ⟨1, .voice (.nearest 1), some "muted"⟩ := by
    have hoffers := finalState_watched hwatched
    exact (congrArg (·.state.2.getLast?) hoffers).symm.trans rfl
  obtain ⟨before, hbefore⟩ := hrejected _ _ _ (List.mem_of_getLast? hlast)
  exact ⟨offers, before, hbefore, (hlog 2 Prod.snd logsAt_rejectsVoices).1⟩

end MusicString.Pattern
