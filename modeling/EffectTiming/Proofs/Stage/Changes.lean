import Mathlib
import EffectTiming.Proofs.Stage.Coherence

/-!
# What listeners hear

A listener hears of every change of the specified timing from its registration to its removal. The
changes form a chain (`Leads`): the first starts from the timing at the registration, each later one
starts where the one before it ended, and the last ends at the timing at the removal.

One action sends each registered listener one notice if it reports a change, and no notice otherwise
(`Stage.step_notices`). Listeners have numbers that are never given out twice (`Stage.Numbered`), so
what a number hears in a whole run is what it hears while it is registered.
-/

namespace EffectTiming

/-- What the listener with the number `n` hears of an outcome. -/
def Outcome.heardBy (n : ℕ) (o : Outcome) : List TimingChange :=
  (o.notices.filter (·.1 == n)).map (·.2)

/-- What the listener with the number `n` hears in the course of some outcomes. -/
def heardBy (n : ℕ) (outcomes : List Outcome) : List TimingChange := outcomes.flatMap (·.heardBy n)

theorem heardBy_cons (n : ℕ) (o : Outcome) (os : List Outcome) :
    heardBy n (o :: os) = o.heardBy n ++ heardBy n os := List.flatMap_cons

theorem heardBy_append (n : ℕ) (os os' : List Outcome) :
    heardBy n (os ++ os') = heardBy n os ++ heardBy n os' := List.flatMap_append

/-- The changes lead from the first timing to the second: each starts where the one before it ended,
and ends at a different timing. -/
def Leads : Option TimingParams → List TimingChange → Option TimingParams → Prop
  | a, [], b => a = b
  | a, c :: cs, b => c.old = a ∧ sameTiming c.old c.new = false ∧ Leads c.new cs b

theorem Leads.append {a b c : Option TimingParams} {xs ys : List TimingChange} (hxs : Leads a xs b)
    (hys : Leads b ys c) : Leads a (xs ++ ys) c := by
  induction xs generalizing a with
  | nil =>
    obtain rfl : a = b := hxs
    exact hys
  | cons x xs ih =>
    obtain ⟨hold, hdiffers, hrest⟩ := hxs
    exact ⟨hold, hdiffers, ih hrest⟩

/-- Everyone in a list without repetitions hears a notice to all of it once. -/
theorem Outcome.heardBy_of_notices {o : Outcome} {listeners : List ℕ} {change : TimingChange}
    (h : o.notices = listeners.map (·, change)) (hnodup : listeners.Nodup) (n : ℕ) :
    o.heardBy n = if n ∈ listeners then [change] else [] := by
  have hcount : o.heardBy n = List.replicate (listeners.count n) change := by
    rw [Outcome.heardBy, h]
    clear h hnodup
    induction listeners with
    | nil => rfl
    | cons m ms ih =>
      by_cases hm : m = n
      · simp [hm, List.replicate_succ, ← ih]
      · simp [hm, ← ih]
  rw [hcount]
  split
  · rename_i hmem
    rw [List.count_eq_one_of_mem hnodup hmem]
    rfl
  · rename_i hmem
    rw [List.count_eq_zero_of_not_mem hmem]
    rfl

namespace Stage

variable {s : Stage} {n : ℕ}

/-! ### One action -/

/-- A timing that counts as the same changes nothing; any other replaces the present one, and all
listeners are told. -/
theorem setTiming_cases (s : Stage) (timing : Option TimingParams) :
    (sameTiming s.effect.specified timing = true ∧ s.setTiming timing = (s, ⟨.flag false, []⟩)) ∨
      (sameTiming s.effect.specified timing = false ∧
        s.setTiming timing =
          ({ s with effect := { s.effect with specified := timing, derived := none } },
            ⟨.flag true, s.effect.listeners.map (·, ⟨s.effect.specified, timing⟩)⟩)) := by
  rw [setTiming, Effect.setTiming]
  cases hsame : sameTiming s.effect.specified timing with
  | true => exact Or.inl ⟨rfl, rfl⟩
  | false => exact Or.inr ⟨rfl, rfl⟩

/-- An update that is refused leaves the stage as it is; any other is a replacement. -/
theorem update_cases (s : Stage) (change : TimingUpdate) :
    (s.update change = (s, ⟨.failed .noTiming, []⟩) ∨
      ∃ f, s.update change = (s, ⟨.rejected f, []⟩)) ∨
      ∃ q, s.update change = s.setTiming (some q) := by
  rw [update]
  split
  · exact Or.inl (Or.inl rfl)
  · split
    · exact Or.inr ⟨_, rfl⟩
    · exact Or.inl (Or.inr ⟨_, rfl⟩)

/-- The action is a change of timing that reports that it changed something. -/
def ReportsChange (s : Stage) : Action → Prop
  | .setTiming timing => s.Reports (.setTiming timing)
  | .update change => s.Reports (.update change)
  | _ => False

/-- The outcome of a change of timing tells what it did: all listeners hear of a different timing,
and the answer says so; or the timing stays, and nobody hears anything. -/
def Told (s : Stage) (r : Stage × Outcome) : Prop :=
  (r.2.answer = .flag true ∧ sameTiming s.effect.specified r.1.effect.specified = false ∧
    r.2.notices = s.effect.listeners.map (·, ⟨s.effect.specified, r.1.effect.specified⟩)) ∨
  (r.2.answer ≠ .flag true ∧ r.1.effect.specified = s.effect.specified ∧ r.2.notices = [])

theorem told_setTiming (s : Stage) (timing : Option TimingParams) :
    s.Told (s.setTiming timing) := by
  rcases setTiming_cases s timing with ⟨-, heq⟩ | ⟨hsame, heq⟩
  · rw [heq]
    exact Or.inr ⟨by simp, rfl, rfl⟩
  · rw [heq]
    exact Or.inl ⟨rfl, hsame, rfl⟩

theorem told_update (s : Stage) (change : TimingUpdate) : s.Told (s.update change) := by
  rcases update_cases s change with (heq | ⟨f, heq⟩) | ⟨q, heq⟩
  · rw [heq]
    exact Or.inr ⟨Answer.noConfusion, rfl, rfl⟩
  · rw [heq]
    exact Or.inr ⟨Answer.noConfusion, rfl, rfl⟩
  · rw [heq]
    exact told_setTiming s (some q)

theorem answerOf_notices {α : Type} (f : α → Answer) (r : Except EffectFault α) :
    (answerOf f r).notices = [] := by
  cases r <;> rfl

theorem record_notices (s : Stage) : s.record.2.notices = [] := by
  rw [record]
  rcases s.trace.record s.view s.effect with ⟨effect, trace⟩
  cases trace <;> rfl

/-- What the notices of an action say: if it reports a change, the timing is a different one, and
every listener is told from which to which; otherwise the timing stays, and nobody is told
anything. -/
theorem step_notices (s : Stage) (a : Action) :
    (s.ReportsChange a ∧ sameTiming s.effect.specified (s.step a).1.effect.specified = false ∧
      (s.step a).2.notices =
        s.effect.listeners.map (·, ⟨s.effect.specified, (s.step a).1.effect.specified⟩)) ∨
      (¬ s.ReportsChange a ∧ (s.step a).1.effect.specified = s.effect.specified ∧
        (s.step a).2.notices = []) := by
  have hrefresh : (s.effect.refresh s.view).1.specified = s.effect.specified :=
    Effect.refresh_specified s.view s.effect
  cases a with
  | setTiming timing => exact told_setTiming s timing
  | update change => exact told_update s change
  | setOwner _ | attach | invalidate | listen | unlisten _ | advance _ | setClock _ | play | pause
  | seek _ | cancel | setRate _ | setTimeline _ | setBoundary _ | setFinished _ =>
    exact Or.inr ⟨id, rfl, rfl⟩
  | normalized | computed _ | inEffect | current | tween _ =>
    exact Or.inr ⟨id, hrefresh, answerOf_notices _ _⟩
  | dict => exact Or.inr ⟨id, rfl, answerOf_notices _ _⟩
  | record =>
    refine Or.inr ⟨id, ?_, record_notices s⟩
    show s.record.1.effect.specified = _
    rw [record_effect, hrefresh]

/-! ### The numbers of listeners -/

/-- No two listeners share a number, and the next number is a new one. -/
structure Numbered (s : Stage) : Prop where
  nodup : s.effect.listeners.Nodup
  lt_next : ∀ m ∈ s.effect.listeners, m < s.effect.nextListener

/-- An action adds the next listener, removes one, or leaves the listeners alone. -/
theorem step_listeners (s : Stage) (a : Action) :
    (a = .listen ∧ (s.step a).1.effect.listeners = s.effect.listeners ++ [s.effect.nextListener] ∧
      (s.step a).1.effect.nextListener = s.effect.nextListener + 1) ∨
    (∃ m, a = .unlisten m ∧ (s.step a).1.effect.listeners = s.effect.listeners.filter (· != m) ∧
      (s.step a).1.effect.nextListener = s.effect.nextListener) ∨
    ((s.step a).1.effect.listeners = s.effect.listeners ∧
      (s.step a).1.effect.nextListener = s.effect.nextListener) := by
  have hset : ∀ timing, (s.setTiming timing).1.effect.listeners = s.effect.listeners ∧
      (s.setTiming timing).1.effect.nextListener = s.effect.nextListener := by
    intro timing
    rcases setTiming_cases s timing with ⟨-, heq⟩ | ⟨-, heq⟩ <;> rw [heq] <;> exact ⟨rfl, rfl⟩
  cases a with
  | listen => exact Or.inl ⟨rfl, rfl, rfl⟩
  | unlisten m => exact Or.inr (Or.inl ⟨m, rfl, rfl, rfl⟩)
  | setTiming timing => exact Or.inr (Or.inr (hset timing))
  | update change =>
    refine Or.inr (Or.inr ?_)
    show (s.update change).1.effect.listeners = _ ∧ (s.update change).1.effect.nextListener = _
    rcases update_cases s change with (heq | ⟨f, heq⟩) | ⟨q, heq⟩
    · rw [heq]
      exact ⟨rfl, rfl⟩
    · rw [heq]
      exact ⟨rfl, rfl⟩
    · rw [heq]
      exact hset (some q)
  | setOwner _ | attach | invalidate | advance _ | setClock _ | play | pause | seek _ | cancel
  | setRate _ | setTimeline _ | setBoundary _ | setFinished _ | dict =>
    exact Or.inr (Or.inr ⟨rfl, rfl⟩)
  | normalized | computed _ | inEffect | current | tween _ =>
    exact Or.inr (Or.inr (Effect.refresh_listeners s.view s.effect))
  | record =>
    refine Or.inr (Or.inr ?_)
    show s.record.1.effect.listeners = _ ∧ s.record.1.effect.nextListener = _
    rw [record_effect]
    exact Effect.refresh_listeners s.view s.effect

theorem Numbered.step (h : s.Numbered) (a : Action) : (s.step a).1.Numbered := by
  rcases step_listeners s a with ⟨-, hadd, hnext⟩ | ⟨m, -, hremove, hnext⟩ | ⟨hkeep, hnext⟩
  · constructor
    · rw [hadd, List.nodup_append]
      refine ⟨h.nodup, List.nodup_singleton _, ?_⟩
      intro m hm k hk
      rw [List.mem_singleton] at hk
      have := h.lt_next m hm
      omega
    · intro m hm
      rw [hadd, List.mem_append, List.mem_singleton] at hm
      rw [hnext]
      rcases hm with hm | rfl
      · have := h.lt_next m hm
        omega
      · omega
  · constructor
    · rw [hremove]
      exact h.nodup.filter _
    · intro k hk
      rw [hremove] at hk
      rw [hnext]
      exact h.lt_next k (List.mem_of_mem_filter hk)
  · constructor
    · rw [hkeep]
      exact h.nodup
    · rw [hkeep, hnext]
      exact h.lt_next

theorem next_le_step (s : Stage) (a : Action) :
    s.effect.nextListener ≤ (s.step a).1.effect.nextListener := by
  rcases step_listeners s a with ⟨-, -, hnext⟩ | ⟨m, -, -, hnext⟩ | ⟨-, hnext⟩ <;> rw [hnext]
  exact Nat.le_succ _

/-- A listener stays until it is removed. -/
theorem mem_listeners_step (hn : n ∈ s.effect.listeners) {a : Action} (ha : a ≠ .unlisten n) :
    n ∈ (s.step a).1.effect.listeners := by
  rcases step_listeners s a with ⟨-, hadd, -⟩ | ⟨m, rfl, hremove, -⟩ | ⟨hkeep, -⟩
  · rw [hadd]
    exact List.mem_append_left _ hn
  · rw [hremove, List.mem_filter]
    refine ⟨hn, ?_⟩
    rw [bne_iff_ne]
    rintro rfl
    exact ha rfl
  · rwa [hkeep]

/-- A number that was given out and is no longer registered stays unregistered. -/
theorem not_mem_listeners_step (hn : n ∉ s.effect.listeners) (hlt : n < s.effect.nextListener)
    (a : Action) : n ∉ (s.step a).1.effect.listeners := by
  rcases step_listeners s a with ⟨-, hadd, -⟩ | ⟨m, -, hremove, -⟩ | ⟨hkeep, -⟩
  · rw [hadd, List.mem_append, List.mem_singleton]
    rintro (hmem | rfl)
    · exact hn hmem
    · exact lt_irrefl _ hlt
  · rw [hremove, List.mem_filter]
    exact fun hmem => hn hmem.1
  · rwa [hkeep]

/-! ### What is heard -/

/-- A registered listener hears of an action once if it reports a change, and an unregistered number
never hears anything. -/
theorem heardBy_step (h : s.Numbered) (n : ℕ) (a : Action) :
    (s.ReportsChange a → (s.step a).2.heardBy n =
      if n ∈ s.effect.listeners
      then [⟨s.effect.specified, (s.step a).1.effect.specified⟩] else []) ∧
    (¬ s.ReportsChange a → (s.step a).2.heardBy n = []) := by
  rcases step_notices s a with ⟨hreports, -, hnotices⟩ | ⟨hreports, -, hnotices⟩
  · exact ⟨fun _ => Outcome.heardBy_of_notices hnotices h.nodup n, fun hnot => absurd hreports hnot⟩
  · refine ⟨fun hyes => absurd hyes hreports, fun _ => ?_⟩
    rw [Outcome.heardBy, hnotices]
    rfl

/-- What a registered listener hears of one action leads from the timing before it to the timing
after. -/
theorem leads_step (h : s.Numbered) (hn : n ∈ s.effect.listeners) (a : Action) :
    Leads s.effect.specified ((s.step a).2.heardBy n) (s.step a).1.effect.specified := by
  rcases step_notices s a with ⟨hreports, hdiffers, -⟩ | ⟨hreports, hkept, -⟩
  · rw [(heardBy_step h n a).1 hreports, if_pos hn]
    exact ⟨rfl, hdiffers, rfl⟩
  · rw [(heardBy_step h n a).2 hreports, hkept]
    rfl

theorem heardBy_step_of_not_mem (h : s.Numbered) (hn : n ∉ s.effect.listeners) (a : Action) :
    (s.step a).2.heardBy n = [] := by
  by_cases hreports : s.ReportsChange a
  · rw [(heardBy_step h n a).1 hreports, if_neg hn]
  · exact (heardBy_step h n a).2 hreports

/-! ### Runs -/

theorem run_append (s : Stage) (as bs : List Action) :
    (s.run (as ++ bs)).2 = (s.run as).2 ++ ((s.after as).run bs).2 := by
  induction as generalizing s with
  | nil => rfl
  | cons a as ih => exact congrArg ((s.step a).2 :: ·) (ih (s.step a).1)

theorem Numbered.after (h : s.Numbered) (actions : List Action) : (s.after actions).Numbered := by
  induction actions generalizing s with
  | nil => exact h
  | cons a as ih => exact ih (h.step a)

theorem numbered_ofTiming (timing : Option TimingParams) : (ofTiming timing).Numbered :=
  ⟨List.nodup_nil, by rintro m (_ | _)⟩

theorem next_le_after (s : Stage) (actions : List Action) :
    s.effect.nextListener ≤ (s.after actions).effect.nextListener := by
  induction actions generalizing s with
  | nil => exact le_rfl
  | cons a as ih => exact (next_le_step s a).trans (ih (s.step a).1)

theorem mem_listeners_after (hn : n ∈ s.effect.listeners) {actions : List Action}
    (hkept : Action.unlisten n ∉ actions) : n ∈ (s.after actions).effect.listeners := by
  induction actions generalizing s with
  | nil => exact hn
  | cons a as ih =>
    rw [List.mem_cons, not_or] at hkept
    exact ih (mem_listeners_step hn (Ne.symm hkept.1)) hkept.2

/-- What a listener hears in a run, as long as it is registered, leads from the timing at its start
to the timing at its end. -/
theorem leads_run (h : s.Numbered) (hn : n ∈ s.effect.listeners) {actions : List Action}
    (hkept : Action.unlisten n ∉ actions) :
    Leads s.effect.specified (heardBy n (s.run actions).2) (s.after actions).effect.specified := by
  induction actions generalizing s with
  | nil => rfl
  | cons a as ih =>
    rw [List.mem_cons, not_or] at hkept
    have hrest := ih (h.step a) (mem_listeners_step hn (Ne.symm hkept.1)) hkept.2
    show Leads _ (heardBy n ((s.step a).2 :: ((s.step a).1.run as).2)) _
    rw [heardBy_cons]
    exact (leads_step h hn a).append hrest

/-- A number hears nothing before it is given out. -/
theorem heardBy_run_of_next_le (h : s.Numbered) {actions : List Action}
    (hn : (s.after actions).effect.nextListener ≤ n) : heardBy n (s.run actions).2 = [] := by
  induction actions generalizing s with
  | nil => rfl
  | cons a as ih =>
    have hnot : n ∉ s.effect.listeners := by
      intro hmem
      have hlt := h.lt_next n hmem
      have hle := next_le_after s (a :: as)
      omega
    show heardBy n ((s.step a).2 :: ((s.step a).1.run as).2) = []
    rw [heardBy_cons, heardBy_step_of_not_mem h hnot, ih (h.step a) hn]
    rfl

/-- A number hears nothing after its listener was removed. -/
theorem heardBy_run_of_not_mem (h : s.Numbered) (hn : n ∉ s.effect.listeners)
    (hlt : n < s.effect.nextListener) (actions : List Action) :
    heardBy n (s.run actions).2 = [] := by
  induction actions generalizing s with
  | nil => rfl
  | cons a as ih =>
    have hrest := ih (h.step a) (not_mem_listeners_step hn hlt a) (hlt.trans_le (next_le_step s a))
    show heardBy n ((s.step a).2 :: ((s.step a).1.run as).2) = []
    rw [heardBy_cons, heardBy_step_of_not_mem h hn, hrest]
    rfl

/-- Nothing is heard of a removal, nor of what follows it. -/
theorem heardBy_run_unlisten (h : s.Numbered) (hn : n ∈ s.effect.listeners) (later : List Action) :
    heardBy n (s.run (.unlisten n :: later)).2 = [] := by
  have hgone : n ∉ (s.step (.unlisten n)).1.effect.listeners := by
    show n ∉ s.effect.listeners.filter (· != n)
    simp
  show heardBy n ((s.step (.unlisten n)).1.run later).2 = []
  exact heardBy_run_of_not_mem (h.step _) hgone (h.lt_next n hn) later

theorem notices_of_not_reportsChange {a : Action} (hnot : ¬ s.ReportsChange a) :
    (s.step a).2.notices = [] := by
  rcases step_notices s a with ⟨hreports, -⟩ | ⟨-, -, hnotices⟩
  · exact absurd hreports hnot
  · exact hnotices

/-- An update that is refused leaves the stage as it is. -/
theorem update_of_refused {change : TimingUpdate} {f : Failure} {e : EffectFault}
    (h : (s.update change).2.answer = .rejected f ∨ (s.update change).2.answer = .failed e) :
    (s.update change).1 = s := by
  rcases update_cases s change with (heq | ⟨f', heq⟩) | ⟨q, heq⟩
  · rw [heq]
  · rw [heq]
  · -- a timing that gets through to be set is never refused
    rw [heq] at h
    rcases setTiming_cases s (some q) with ⟨-, hset⟩ | ⟨-, hset⟩
    · rw [hset] at h
      rcases h with h | h <;> cases h
    · rw [hset] at h
      rcases h with h | h <;> cases h

/-- A listener that joins a stage after any run gets a new number. As long as it is not removed,
what it hears leads from the timing at its registration to the present one, and in the whole run its
number hears nothing else, neither before nor after its removal. On the stage at hand, an action
that reports a change is heard once by every listener and by nobody else, any other action by
nobody; and an update that is refused leaves the whole stage as it is. -/
theorem changes_gapless (timing : Option TimingParams) (earlier : List Action) :
    let s := (ofTiming timing).after earlier
    let n := s.effect.nextListener
    let joined := (s.step .listen).1
    ((s.step .listen).2 = ⟨.listener n, []⟩ ∧ n ∉ s.effect.listeners) ∧
    (∀ between later : List Action, Action.unlisten n ∉ between →
      n ∈ (joined.after between).effect.listeners ∧
      Leads s.effect.specified (heardBy n (joined.run between).2)
        (joined.after between).effect.specified ∧
      heardBy n ((ofTiming timing).run (earlier ++ .listen :: between)).2 =
        heardBy n (joined.run between).2 ∧
      heardBy n ((ofTiming timing).run
          (earlier ++ .listen :: (between ++ .unlisten n :: later))).2 =
        heardBy n (joined.run between).2) ∧
    (∀ (a : Action) (m : ℕ),
      (s.ReportsChange a → (s.step a).2.heardBy m =
        if m ∈ s.effect.listeners
        then [⟨s.effect.specified, (s.step a).1.effect.specified⟩] else []) ∧
      (¬ s.ReportsChange a → (s.step a).2.notices = [])) ∧
    ∀ (change : TimingUpdate) (f : Failure) (e : EffectFault),
      (s.step (.update change)).2.answer = .rejected f ∨
        (s.step (.update change)).2.answer = .failed e →
      (s.step (.update change)).1 = s := by
  intro s n joined
  have hs : s.Numbered := (numbered_ofTiming timing).after earlier
  have hjoined : joined.Numbered := hs.step .listen
  have hn : n ∈ joined.effect.listeners := List.mem_append_right _ (List.mem_singleton_self n)
  have hnew : n ∉ s.effect.listeners := fun hmem => lt_irrefl n (hs.lt_next n hmem)
  have hbefore : heardBy n ((ofTiming timing).run earlier).2 = [] :=
    heardBy_run_of_next_le (numbered_ofTiming timing) le_rfl
  -- up to the registration nothing is heard, whatever follows it
  have hfrom : ∀ actions, heardBy n ((ofTiming timing).run (earlier ++ .listen :: actions)).2 =
      heardBy n (joined.run actions).2 := by
    intro actions
    rw [run_append, heardBy_append, hbefore]
    rfl
  refine ⟨⟨rfl, hnew⟩, ?_, ?_, ?_⟩
  · intro between later hkept
    have hmem := mem_listeners_after hn hkept
    refine ⟨hmem, leads_run hjoined hn hkept, hfrom between, ?_⟩
    rw [hfrom, run_append, heardBy_append, heardBy_run_unlisten (hjoined.after between) hmem,
      List.append_nil]
  · intro a m
    exact ⟨(heardBy_step hs m a).1, notices_of_not_reportsChange⟩
  · intro change f e hanswer
    exact update_of_refused hanswer

/-- A run with a change from no timing, a replacement by the same, a refused update and a removal of
the timing: two changes are heard, and they lead back to no timing. -/
theorem changes_gapless_twice :
    heardBy 0 ((ofTiming none).run
        [.listen, .setTiming (some fillingOnce), .setTiming (some fillingOnce),
          .update { iterations := some (-1) }, .setTiming none, .unlisten 0,
          .setTiming (some fillingOnce)]).2 =
      [⟨none, some fillingOnce⟩, ⟨some fillingOnce, none⟩] ∧
    Leads none [⟨none, some fillingOnce⟩, ⟨some fillingOnce, none⟩] none := by
  obtain ⟨-, hleads, -, hwhole⟩ := (changes_gapless none []).2.1
    [.setTiming (some fillingOnce), .setTiming (some fillingOnce),
      .update { iterations := some (-1) }, .setTiming none]
    [.setTiming (some fillingOnce)] (by simp)
  exact ⟨hwhole, hleads⟩

end Stage

end EffectTiming
