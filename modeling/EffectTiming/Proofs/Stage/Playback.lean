import Mathlib
import EffectTiming.Stage.Basic
import EffectTiming.Proofs.Stage.Coherence
import EffectTiming.Proofs.Time.Span

/-!
# No time is lost or counted twice

What a player shows is compared with what was done on its stage. The history says whether there is a
current time, whether the player is playing, where it was moved to, and how far the clock went while
it was playing since then (`Playback.played`, a sum over the single actions). The player itself
keeps a time and a moment from which it counts on, and folds the elapsed time in at some actions and
not at others.

The invariant is `Stage.Follows`. All actions that touch neither the clock nor the motion of the
player are one case of it; each of the others is a case of its own, and a run follows by induction
from its end. The elapsed time goes through a binary64 number, which is exact up to `2 ^ 53`
nanoseconds.
-/

namespace EffectTiming

open Binary64

/-! ### Counting on -/

namespace Span

/-- Short spans are exact as numbers, and stay so at rate one. -/
theorem ofFloat_toFloat_mul_one {d : Span} (h : |d.ns| ≤ 9007199254740992) :
    ofFloat (d.toFloat * 1) = d := by
  have hexact : rounded (d.ns : ℚ) = d.ns := rounded_of_representable (representable_intCast h)
  have hsize : |(d.ns : ℚ)| ≤ 2 ^ 63 := by exact_mod_cast d.abs_ns_le
  have hvalue : HasValue (d.toFloat * 1) d.ns := by
    have hmul := d.hasValue_toFloat.mul hasValue_one (by
      rw [mul_one, hexact, hexact]
      exact lt_of_le_of_lt hsize (pow_lt_limit (k := 63) (by norm_num)))
    rwa [mul_one, hexact, hexact] at hmul
  rw [ofFloat_eq_wrap hvalue hsize, towardZero_intCast, wrap_ns]

end Span

namespace Player

/-- At rate one a player shows its time and what has elapsed since, as long as that is exact. -/
theorem position_of_playing {p : Player} {now : Instant} (hplaying : p.playing = true)
    (hrate : p.rate = 1) (hnear : |now.toNanos - p.since.toNanos| ≤ 9007199254740992) :
    p.position now = Span.wrap (p.hold.ns + (now.toNanos - p.since.toNanos)) := by
  have helapsed : (now.since p.since).ns = now.toNanos - p.since.toNanos := by
    obtain ⟨hlow, hhigh⟩ := abs_le.mp hnear
    rw [Instant.since, Span.clamp_ns]
    omega
  rw [position, if_pos hplaying, hrate, Span.ofFloat_toFloat_mul_one (by rwa [helapsed]), helapsed]

theorem position_of_not_playing {p : Player} {now : Instant} (hplaying : p.playing = false) :
    p.position now = p.hold := by
  rw [position, hplaying]
  rfl

/-- A player that counts from now on shows the time that it keeps, whatever its rate. -/
theorem position_since {p : Player} {now : Instant} (hrate : isFinite p.rate = true)
    (hsince : p.since = now) :
    p.position now = p.hold := by
  cases hplaying : p.playing with
  | false => exact position_of_not_playing hplaying
  | true =>
    obtain ⟨r, hr⟩ := isFinite_iff.mp hrate
    have helapsed : now.since p.since = .zero := by
      rw [Instant.since, hsince, sub_self]
      rfl
    have hvalue : HasValue (Span.zero.toFloat * p.rate) 0 := by
      have hmul := Span.zero.hasValue_toFloat.mul hr (by simp [limit, topUnit_pos])
      simpa using hmul
    have hnone : Span.ofFloat (Span.zero.toFloat * p.rate) = .zero := by
      rw [Span.ofFloat_eq_wrap hvalue (by simp)]
      exact congrArg Span.wrap (towardZero_intCast 0)
    rw [position, if_pos hplaying, helapsed, hnone, Span.zero_ns, add_zero, Span.wrap_ns]

end Player

/-! ### What an action means for a player -/

namespace Action

/-- The action gives up the current time. -/
def cancels : Action → Bool
  | .cancel => true
  | _ => false

/-- The action gives the player a current time, if it has none. -/
def resolves : Action → Bool
  | .play | .seek _ => true
  | _ => false

/-- The time that the action moves the player to. -/
def target? : Action → Option Span
  | .seek d => some d
  | _ => none

/-- Whether the player plays from the action on, if the action decides that. -/
def switch? : Action → Option Bool
  | .play => some true
  | .pause | .cancel => some false
  | _ => none

/-- The current time is counted anew from the action on. -/
def anchors (a : Action) : Bool := a.cancels || a.target?.isSome

/-- The rate is one after the action, if it was one before. -/
def KeepsRate : Action → Prop
  | .setRate rate => rate = 1
  | _ => True

/-- The action touches neither the clock nor what the time of the player depends on. -/
def isStill : Action → Bool
  | .advance _ | .setClock _ | .play | .pause | .seek _ | .cancel | .setRate _ => false
  | _ => true

theorem says_of_isStill {a : Action} (h : a.isStill = true) :
    a.cancels = false ∧ a.resolves = false ∧ a.target? = none ∧ a.switch? = none := by
  cases a <;> first
    | exact ⟨rfl, rfl, rfl, rfl⟩
    | cases h

end Action

/-! ### What the history says -/

namespace Playback

/-- What was done since the player was new, or since it was cancelled the last time. -/
def sinceCancel (past : List Action) : List Action := past.rtakeWhile (!·.cancels)

/-- The player was given a current time. -/
def isResolved (past : List Action) : Bool := (sinceCancel past).any Action.resolves

/-- The player is playing. -/
def isPlaying (past : List Action) : Bool := (past.filterMap Action.switch?).getLast?.getD false

/-- The time that the player was moved to the last time, and zero if it never was. -/
def anchor (past : List Action) : ℤ :=
  ((sinceCancel past).filterMap Action.target?).getLast?.elim 0 Span.ns

/-- How many actions there were until the current time was counted anew the last time. -/
def anchorIndex (past : List Action) : ℕ := (past.rdropWhile (!·.anchors)).length

/-- What the clock shows after the first `i` actions. -/
def reading (s : Stage) (past : List Action) (i : ℕ) : ℤ := (s.after (past.take i)).now.toNanos

/-- How far the clock went while the player was playing, since the current time was counted anew. -/
def played (s : Stage) (past : List Action) : ℤ :=
  ∑ i ∈ Finset.Ico (anchorIndex past) past.length,
    if isPlaying (past.take i) then reading s past (i + 1) - reading s past i else 0

variable (s : Stage) (past : List Action) (a : Action)

@[simp]
theorem isResolved_concat :
    isResolved (past ++ [a]) = (!a.cancels && (isResolved past || a.resolves)) := by
  rw [isResolved, isResolved, sinceCancel, sinceCancel, List.rtakeWhile_concat]
  cases a.cancels <;> simp

@[simp]
theorem isPlaying_concat : isPlaying (past ++ [a]) = a.switch?.getD (isPlaying past) := by
  rw [isPlaying, isPlaying, List.filterMap_append]
  cases h : a.switch? <;> simp [h]

theorem anchor_concat :
    anchor (past ++ [a]) = if a.cancels then 0 else a.target?.elim (anchor past) Span.ns := by
  rw [anchor, anchor, sinceCancel, sinceCancel, List.rtakeWhile_concat]
  cases a.cancels with
  | true => rfl
  | false =>
    simp only [Bool.not_false, if_true, Bool.false_eq_true, if_false, List.filterMap_append]
    cases h : a.target? <;> simp [h]

theorem anchorIndex_concat :
    anchorIndex (past ++ [a]) = if a.anchors then past.length + 1 else anchorIndex past := by
  rw [anchorIndex, anchorIndex, List.rdropWhile_concat]
  cases a.anchors <;> simp

theorem anchorIndex_le : anchorIndex past ≤ past.length := (List.rdropWhile_prefix _ _).length_le

theorem reading_length : reading s past past.length = (s.after past).now.toNanos := by
  rw [reading, List.take_length]

theorem reading_concat {i : ℕ} (h : i ≤ past.length) :
    reading s (past ++ [a]) i = reading s past i := by
  rw [reading, reading, List.take_append_of_le_length h]

/-- One more action adds what the clock went during it, or has everything counted anew. -/
theorem played_concat :
    played s (past ++ [a]) =
      if a.anchors then 0
      else played s past +
        if isPlaying past then (s.after (past ++ [a])).now.toNanos -
        (s.after past).now.toNanos else 0 := by
  rw [played, anchorIndex_concat, List.length_append, List.length_singleton]
  cases a.anchors with
  | true => simp
  | false =>
    have hearlier : ∀ i ∈ Finset.Ico (anchorIndex past) past.length,
        (if isPlaying ((past ++ [a]).take i) then
          reading s (past ++ [a]) (i + 1) - reading s (past ++ [a]) i else 0) =
        if isPlaying (past.take i) then reading s past (i + 1) - reading s past i else 0 := by
      intro i hi
      have hlt := (Finset.mem_Ico.mp hi).2
      rw [reading_concat s past a hlt.le, reading_concat s past a hlt,
        List.take_append_of_le_length hlt.le]
    have hlast : reading s (past ++ [a]) (past.length + 1) =
        (s.after (past ++ [a])).now.toNanos := by
      rw [← reading_length, List.length_append, List.length_singleton]
    simp only [Bool.false_eq_true, if_false]
    rw [Finset.sum_Ico_succ_top (anchorIndex_le past),
      Finset.sum_congr rfl hearlier, ← played, hlast, reading_concat s past a le_rfl,
      reading_length, List.take_left]

/-- The time that the player shows: where it was moved to, and what was played since then. -/
def shownTime : ℤ := anchor past + played s past

/-- While the clock stands still, only cancelling and moving change the time. -/
theorem shownTime_concat_of_now (hnow : (s.after (past ++ [a])).now = (s.after past).now) :
    shownTime s (past ++ [a]) =
      if a.cancels then 0 else a.target?.elim (shownTime s past) Span.ns := by
  rw [shownTime, anchor_concat, played_concat, hnow, Action.anchors]
  cases a.cancels <;> cases a.target? <;> simp [shownTime]

/-- The clock moves the time of a player that is playing. -/
theorem shownTime_concat_of_anchors (ha : a.anchors = false) :
    shownTime s (past ++ [a]) = shownTime s past +
      if isPlaying past then (s.after (past ++ [a])).now.toNanos -
      (s.after past).now.toNanos else 0 := by
  obtain ⟨hcancels, htarget⟩ : a.cancels = false ∧ a.target? = none := by
    simpa [Action.anchors] using ha
  rw [shownTime, shownTime, anchor_concat, played_concat, ha, hcancels, htarget]
  simp [add_assoc]

/-- A player that is playing was given a current time. -/
theorem isResolved_of_isPlaying (h : isPlaying past = true) : isResolved past = true := by
  induction past using List.reverseRecOn with
  | nil => cases h
  | append_singleton past a ih =>
    rw [isPlaying_concat] at h
    rw [isResolved_concat]
    cases a with
    | pause | cancel => cases h
    | play | seek _ => simp [Action.cancels, Action.resolves]
    | _ => simp [Action.cancels, ih h]

end Playback

/-! ### The player follows the history -/

namespace Stage

open Playback

variable {s : Stage} {past : List Action} {a : Action}

theorem after_concat (s : Stage) (past : List Action) (a : Action) :
    s.after (past ++ [a]) = ((s.after past).step a).1 := after_append s past [a]

theorem record_player (s : Stage) : s.record.1.now = s.now ∧ s.record.1.player = s.player := by
  rw [record]
  rcases s.trace.record s.view s.effect with ⟨effect, trace⟩
  cases trace <;> exact ⟨rfl, rfl⟩

theorem update_player (s : Stage) (change : TimingUpdate) :
    (s.update change).1.now = s.now ∧ (s.update change).1.player = s.player := by
  rw [update]
  split
  · exact ⟨rfl, rfl⟩
  · split <;> exact ⟨rfl, rfl⟩

/-- What the time of the player depends on, at every moment. -/
def motion (s : Stage) : Bool × Bool × Span × Instant × Float :=
  (s.player.resolved, s.player.playing, s.player.hold, s.player.since, s.player.rate)

theorem step_of_isStill (h : a.isStill = true) (s : Stage) :
    (s.step a).1.now = s.now ∧ (s.step a).1.motion = s.motion := by
  cases a with
  | update change =>
    obtain ⟨hnow, hplayer⟩ := update_player s change
    exact ⟨hnow, by rw [motion, motion]; exact hplayer ▸ rfl⟩
  | record =>
    obtain ⟨hnow, hplayer⟩ := record_player s
    exact ⟨hnow, by rw [motion, motion]; exact hplayer ▸ rfl⟩
  | advance _ | setClock _ | play | pause | seek _ | cancel | setRate _ => cases h
  | _ => exact ⟨rfl, rfl⟩

/-- A moment lies at most `2 ^ 52` nanoseconds away from the start. -/
def Near (s : Stage) (moment : Instant) : Prop :=
  |moment.toNanos - s.now.toNanos| ≤ 4503599627370496

/-- The player is as its history says: it plays at rate one, and it shows the time that the history
gives. While it is playing it counts from a moment near the start. -/
structure Follows (s : Stage) (past : List Action) : Prop where
  rate : (s.after past).player.rate = 1
  playing : (s.after past).player.playing = isPlaying past
  resolved : (s.after past).player.resolved = isResolved past
  near : isPlaying past = true → s.Near (s.after past).player.since
  position : (s.after past).player.position (s.after past).now = Span.wrap (shownTime s past)

namespace Follows

/-- A new player has no history. -/
theorem new (hnew : s.player = {}) : s.Follows [] := by
  have hafter : (s.after []).player = {} := hnew
  constructor
  · rw [hafter]
  · rw [hafter]
    rfl
  · rw [hafter]
    rfl
  · intro h
    cases h
  · rw [hafter]
    rfl

/-- A player that stands still shows the time that it keeps. -/
theorem hold (h : s.Follows past) (hplaying : isPlaying past = false) :
    (s.after past).player.hold = Span.wrap (shownTime s past) := by
  rw [← h.position, Player.position_of_not_playing (h.playing.trans hplaying)]

theorem isFinite_rate (h : s.Follows past) : isFinite (s.after past).player.rate = true := by
  rw [h.rate]
  exact hasValue_one.isFinite

/-- An action that touches neither the clock nor the motion of the player. -/
theorem still (h : s.Follows past) (ha : a.isStill = true) : s.Follows (past ++ [a]) := by
  obtain ⟨hcancels, hresolves, htarget, hswitch⟩ := Action.says_of_isStill ha
  obtain ⟨hnow, hmotion⟩ := step_of_isStill ha (s.after past)
  rw [← after_concat] at hnow hmotion
  simp only [motion, Prod.mk.injEq] at hmotion
  obtain ⟨hresolved, hplaying, hhold, hsince, hrate⟩ := hmotion
  constructor
  · rw [hrate, h.rate]
  · rw [hplaying, h.playing, isPlaying_concat, hswitch, Option.getD_none]
  · rw [hresolved, h.resolved, isResolved_concat, hcancels, hresolves]
    simp
  · rw [isPlaying_concat, hswitch, hsince]
    exact h.near
  · rw [shownTime_concat_of_now s past a hnow, hcancels, htarget, hnow,
      Player.position, hplaying, hhold, hsince, hrate]
    exact h.position

/-- The clock goes on, or back. -/
theorem clock (h : s.Follows past)
    (hplayer : ((s.after past).step a).1.player = (s.after past).player)
    (hanchors : a.anchors = false) (hresolves : a.resolves = false) (hswitch : a.switch? = none)
    (hbefore : s.Near (s.after past).now) (hafter : s.Near (s.after (past ++ [a])).now) :
    s.Follows (past ++ [a]) := by
  have hcancels : a.cancels = false := (Bool.or_eq_false_iff.mp hanchors).1
  rw [← after_concat] at hplayer
  constructor
  · rw [hplayer, h.rate]
  · rw [hplayer, h.playing, isPlaying_concat, hswitch, Option.getD_none]
  · rw [hplayer, h.resolved, isResolved_concat, hcancels, hresolves]
    simp
  · rw [isPlaying_concat, hswitch, hplayer]
    exact h.near
  · rw [shownTime_concat_of_anchors s past a hanchors, hplayer]
    cases hplaying : isPlaying past with
    | false =>
      rw [Player.position_of_not_playing (h.playing.trans hplaying), h.hold hplaying]
      simp
    | true =>
      -- both readings and the moment that is counted from lie near the start, so both differences
      -- are exact
      have hnear := h.near hplaying
      rw [Near, abs_le] at hnear hbefore hafter
      have hshown := h.position
      rw [Player.position_of_playing (h.playing.trans hplaying) h.rate (abs_le.mpr (by omega))]
        at hshown
      rw [Player.position_of_playing (h.playing.trans hplaying) h.rate (abs_le.mpr (by omega)),
        if_pos rfl, ← Span.wrap_add_congr hshown]
      congr 1
      ring

/-- The player changes and the clock stands still. The player goes on as it was, or it counts from
now on. -/
theorem change (h : s.Follows past) {p : Player}
    (hstep : ((s.after past).step a).1 = { s.after past with player := p })
    (hnear : s.Near (s.after past).now)
    (hrate : p.rate = 1) (hplaying : p.playing = a.switch?.getD (isPlaying past))
    (hresolved : p.resolved = (!a.cancels && (isResolved past || a.resolves)))
    (hsince : p.playing = true → p = (s.after past).player ∨ p.since = (s.after past).now)
    (hposition : p.position (s.after past).now =
      Span.wrap (if a.cancels then 0 else a.target?.elim (shownTime s past) Span.ns)) :
    s.Follows (past ++ [a]) := by
  rw [← after_concat] at hstep
  have hnow : (s.after (past ++ [a])).now = (s.after past).now := by rw [hstep]
  have hplayer : (s.after (past ++ [a])).player = p := by rw [hstep]
  constructor
  · rw [hplayer, hrate]
  · rw [hplayer, hplaying, isPlaying_concat]
  · rw [hplayer, hresolved, isResolved_concat]
  · intro hplays
    rw [isPlaying_concat, ← hplaying] at hplays
    rw [hplayer]
    rcases hsince hplays with rfl | hsince
    · exact h.near (h.playing ▸ hplays)
    · rwa [hsince]
  · rw [hplayer, hnow, hposition, shownTime_concat_of_now s past a hnow]

theorem play (h : s.Follows past) (hnear : s.Near (s.after past).now) :
    s.Follows (past ++ [.play]) := by
  refine h.change rfl hnear ?_ ?_ ?_ ?_ ?_ <;> rw [Player.play] <;> split
  · exact h.rate
  · exact h.rate
  · assumption
  · rfl
  · rename_i hplaying
    rw [h.resolved, isResolved_of_isPlaying past (h.playing.symm.trans hplaying)]
    rfl
  · simp [Action.cancels, Action.resolves]
  · exact fun _ => Or.inl rfl
  · exact fun _ => Or.inr rfl
  · exact h.position
  · rename_i hplaying
    rw [Bool.not_eq_true, h.playing] at hplaying
    refine (Player.position_since ?_ rfl).trans (h.hold hplaying)
    exact h.isFinite_rate

theorem pause (h : s.Follows past) (hnear : s.Near (s.after past).now) :
    s.Follows (past ++ [.pause]) := by
  refine h.change rfl hnear h.rate rfl ?_ ?_ ?_
  · show (s.after past).player.resolved = _
    simp [h.resolved, Action.cancels, Action.resolves]
  · intro hplays
    cases hplays
  · rw [Player.position_of_not_playing rfl]
    exact h.position

theorem seek (h : s.Follows past) (hnear : s.Near (s.after past).now) (d : Span) :
    s.Follows (past ++ [.seek d]) := by
  refine h.change rfl hnear h.rate h.playing ?_ (fun _ => Or.inr rfl) ?_
  · simp [Player.seek, Action.cancels, Action.resolves]
  · refine (Player.position_since ?_ rfl).trans (Span.wrap_ns d).symm
    exact h.isFinite_rate

theorem cancel (h : s.Follows past) (hnear : s.Near (s.after past).now) :
    s.Follows (past ++ [.cancel]) := by
  refine h.change rfl hnear h.rate rfl rfl ?_ ?_
  · intro hplays
    cases hplays
  · rw [Player.position_of_not_playing rfl]
    exact (Span.wrap_ns .zero).symm

theorem setRate_one (h : s.Follows past) (hnear : s.Near (s.after past).now) :
    s.Follows (past ++ [.setRate 1]) := by
  refine h.change rfl hnear rfl h.playing ?_ (fun _ => Or.inr rfl) ?_
  · show (s.after past).player.resolved = _
    simp [h.resolved, Action.cancels, Action.resolves]
  · exact (Player.position_since hasValue_one.isFinite rfl).trans h.position

/-- Every action keeps the invariant. -/
theorem step (h : s.Follows past) (hrate : a.KeepsRate) (hbefore : s.Near (s.after past).now)
    (hafter : s.Near (s.after (past ++ [a])).now) :
    s.Follows (past ++ [a]) := by
  cases a with
  | advance _ | setClock _ => exact h.clock rfl rfl rfl rfl hbefore hafter
  | play => exact h.play hbefore
  | pause => exact h.pause hbefore
  | seek d => exact h.seek hbefore d
  | cancel => exact h.cancel hbefore
  | setRate rate =>
    obtain rfl : rate = 1 := hrate
    exact h.setRate_one hbefore
  | _ => exact h.still rfl

end Follows

/-- A player follows every run near the start of the clock. -/
theorem follows_after (hnew : s.player = {}) {actions : List Action}
    (hrate : ∀ a ∈ actions, a.KeepsRate)
    (hnear : ∀ past, past <+: actions → s.Near (s.after past).now) : s.Follows actions := by
  induction actions using List.reverseRecOn with
  | nil => exact .new hnew
  | append_singleton past a ih =>
    have hpast := ih (fun b hb => hrate b (List.mem_append_left _ hb))
      (fun earlier hearlier => hnear earlier (hearlier.trans (List.prefix_append past [a])))
    exact hpast.step (hrate a (by simp)) (hnear past (List.prefix_append past [a]))
      (hnear _ List.prefix_rfl)

/-- A new player that plays at rate one on a clock that stays within `2 ^ 52` nanoseconds of its
start has no current time exactly if it was neither started nor moved since it was new or cancelled
the last time. Otherwise its current time is the one it was moved to last since then, or zero, and
the movement of the clock while it was playing from there on, if that fits into a span. -/
theorem currentTime_after (hnew : s.player = {}) {actions : List Action}
    (hrate : ∀ a ∈ actions, a.KeepsRate)
    (hnear : ∀ past, past <+: actions → |(s.after past).now.toNanos - s.now.toNanos| ≤ 2 ^ 52)
    (hlow : Span.least ≤ anchor actions + played s actions)
    (hhigh : anchor actions + played s actions ≤ Span.greatest) :
    ((s.after actions).player.currentTime (s.after actions).now = .unresolved ↔
        ∀ a ∈ sinceCancel actions, a.resolves = false) ∧
      ((∃ a ∈ sinceCancel actions, a.resolves = true) →
        (s.after actions).player.currentTime (s.after actions).now =
          .resolved ⟨anchor actions + played s actions, hlow, hhigh⟩) := by
  have h := follows_after hnew hrate (by simpa [Near] using hnear)
  rw [Player.currentTime, h.resolved, h.position, shownTime, Span.wrap_of_le hlow hhigh, isResolved]
  constructor
  · cases hany : (sinceCancel actions).any Action.resolves <;> simpa using hany
  · intro hexists
    rw [List.any_eq_true.mpr hexists, if_pos rfl]

/-- A run that moves the player while it is playing, turns the clock back, and starts again after a
pause. -/
def windingRun : List Action :=
  [.play, .advance ⟨5, by decide, by decide⟩, .seek ⟨1000, by decide, by decide⟩,
    .advance ⟨-2, by decide, by decide⟩, .pause,
    .advance ⟨7, by decide, by decide⟩, .play, .setRate 1, .advance ⟨3, by decide, by decide⟩]

/-- Of the clock's movements only the one back and the last one count. -/
theorem currentTime_after_windingRun :
    ((ofTiming none).after windingRun).player.currentTime ((ofTiming none).after windingRun).now =
      .resolved ⟨1001, by decide, by decide⟩ := by
  have hshown : anchor windingRun + played (ofTiming none) windingRun = 1001 := by decide +kernel
  have hrate : ∀ a ∈ windingRun, a.KeepsRate := by simp [windingRun, Action.KeepsRate]
  have hnear : ∀ past, past <+: windingRun →
      |((ofTiming none).after past).now.toNanos - (ofTiming none).now.toNanos| ≤ 2 ^ 52 := by
    simp only [← List.mem_inits]
    decide +kernel
  have hresolved : ∃ a ∈ sinceCancel windingRun, a.resolves = true :=
    List.any_eq_true.mp (by decide +kernel)
  have htime :=
    (currentTime_after rfl hrate hnear (by rw [hshown]; decide) (by rw [hshown]; decide)).2
    hresolved
  simpa only [hshown] using htime

end Stage

end EffectTiming
