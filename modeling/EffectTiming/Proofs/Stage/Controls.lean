import Mathlib
import EffectTiming.Proofs.Stage.Playback

/-!
# Controls do not move a player

A player is paused, given another rate, timeline, boundary or play state, or played on, and its
current time stays what it was; only moving it, cancelling it and the clock change that. At the
moment of such a change all elapsed time is folded into the time that the player keeps, so the new
rate has nothing to act upon yet (`Player.position_since`).

Playing on is the delicate case. It counts from now on without looking at what is kept, so it starts
a player without a current time at zero only if nothing is kept there. That is what `Player.Sound`
says, and every action keeps it.
-/

namespace EffectTiming

open Binary64

namespace Player

variable {p : Player} {now : Instant} {rate : Float}

/-- The rate is a number, and without a current time the player stands still at zero. -/
structure Sound (p : Player) : Prop where
  rate : isFinite p.rate = true
  idle : p.resolved = false → p.playing = false ∧ p.hold = .zero

namespace Sound

theorem new : Sound {} := ⟨hasValue_one.isFinite, fun _ => ⟨rfl, rfl⟩⟩

theorem play (h : p.Sound) (now : Instant) : (p.play now).Sound := by
  rw [Player.play]
  split
  · exact h
  · refine ⟨h.rate, ?_⟩
    intro hidle
    cases hidle

/-- A player that stands still folds no time in, however long ago it was cancelled. -/
theorem rebase (h : p.Sound) (now : Instant) : (p.rebase now).Sound := by
  refine ⟨h.rate, ?_⟩
  intro hidle
  obtain ⟨hplaying, hhold⟩ := h.idle hidle
  refine ⟨hplaying, ?_⟩
  show p.position now = .zero
  rw [position_of_not_playing hplaying, hhold]

theorem pause (h : p.Sound) (now : Instant) : (p.pause now).Sound := by
  refine ⟨h.rate, ?_⟩
  intro hidle
  exact ⟨rfl, ((h.rebase now).idle hidle).2⟩

theorem seek (h : p.Sound) (now : Instant) (time : Span) : (p.seek now time).Sound := by
  refine ⟨h.rate, ?_⟩
  intro hidle
  cases hidle

theorem cancel (h : p.Sound) : p.cancel.Sound := ⟨h.rate, fun _ => ⟨rfl, rfl⟩⟩

theorem setRate (h : p.Sound) (now : Instant) (hrate : isFinite rate = true) :
    (p.setRate now rate).Sound :=
  ⟨hrate, (h.rebase now).idle⟩

end Sound

/-! ### The current time right after a change -/

theorem currentTime_pause (p : Player) (now : Instant) :
    (p.pause now).currentTime now = p.currentTime now := by
  have hposition : (p.pause now).position now = p.position now := position_of_not_playing rfl
  rw [currentTime, currentTime, hposition]
  rfl

theorem currentTime_setRate (p : Player) (now : Instant) (hrate : isFinite rate = true) :
    (p.setRate now rate).currentTime now = p.currentTime now := by
  have hposition : (p.setRate now rate).position now = p.position now := position_since hrate rfl
  rw [currentTime, currentTime, hposition]
  rfl

theorem Sound.currentTime_play (h : p.Sound) (now : Instant) :
    (p.play now).currentTime now = if p.resolved then p.currentTime now else .resolved .zero := by
  rw [Player.play]
  split
  · rename_i hplaying
    cases hresolved : p.resolved with
    | true => rfl
    | false =>
      rw [(h.idle hresolved).1] at hplaying
      cases hplaying
  · rename_i hstill
    have hstill : p.playing = false := by simpa using hstill
    have hposition :
        position { p with resolved := true, playing := true, since := now } now = p.hold :=
      position_since h.rate rfl
    show LocalTime.resolved (position _ now) = _
    rw [hposition]
    cases hresolved : p.resolved with
    | true => simp [currentTime, hresolved, position_of_not_playing hstill]
    | false => simp [(h.idle hresolved).2]

end Player

/-- The action steers a player that goes on where it is. -/
def Action.Steers : Action → Prop
  | .pause | .setTimeline _ | .setBoundary _ | .setFinished _ => True
  | .setRate rate => isFinite rate = true
  | _ => False

namespace Stage

variable {s : Stage} {a : Action}

theorem sound_step (h : s.player.Sound) (ha : ∀ rate, a = .setRate rate → isFinite rate = true) :
    (s.step a).1.player.Sound := by
  cases a with
  | update change =>
    show (s.update change).1.player.Sound
    rwa [(update_player s change).2]
  | record =>
    show s.record.1.player.Sound
    rwa [(record_player s).2]
  | play => exact h.play s.now
  | pause => exact h.pause s.now
  | seek d => exact h.seek s.now d
  | cancel => exact h.cancel
  | setRate rate => exact h.setRate s.now (ha rate rfl)
  | setTimeline _ | setBoundary _ | setFinished _ => exact ⟨h.rate, h.idle⟩
  | _ => exact h

theorem sound_after (h : s.player.Sound) {actions : List Action}
    (hrates : ∀ rate, Action.setRate rate ∈ actions → isFinite rate = true) :
    (s.after actions).player.Sound := by
  induction actions generalizing s with
  | nil => exact h
  | cons a as ih =>
    apply ih
    · apply sound_step h
      rintro rate rfl
      exact hrates rate List.mem_cons_self
    · intro rate hrate
      exact hrates rate (List.mem_cons_of_mem a hrate)

/-- The current time of the player, read off the clock of the stage. -/
def playerTime (s : Stage) : LocalTime := s.player.currentTime s.now

theorem now_of_steers (ha : a.Steers) (s : Stage) : (s.step a).1.now = s.now := by
  cases a with
  | pause | setRate _ | setTimeline _ | setBoundary _ | setFinished _ => rfl
  | _ => exact absurd ha id

theorem playerTime_of_steers (ha : a.Steers) (s : Stage) :
    (s.step a).1.playerTime = s.playerTime := by
  cases a with
  | pause => exact s.player.currentTime_pause s.now
  | setRate rate => exact s.player.currentTime_setRate s.now ha
  | setTimeline _ | setBoundary _ | setFinished _ => rfl
  | _ => exact absurd ha id

/-- After any run with finite rates a player without a current time stands still at zero; whatever
steers the player leaves clock and current time as they are, and playing gives it the time zero
exactly if it has none. -/
theorem currentTime_unmoved (timing : Option TimingParams) {actions : List Action}
    (hrates : ∀ rate, Action.setRate rate ∈ actions → isFinite rate = true) :
    let s := (ofTiming timing).after actions
    (s.player.resolved = false → s.player.playing = false ∧ s.player.hold = .zero) ∧
      (∀ a : Action, a.Steers → (s.step a).1.now = s.now ∧ (s.step a).1.playerTime = s.playerTime) ∧
      (s.step .play).1.now = s.now ∧
      (s.step .play).1.playerTime =
        if s.player.resolved then s.playerTime else .resolved .zero := by
  intro s
  have hsound : s.player.Sound := sound_after Player.Sound.new hrates
  refine ⟨hsound.idle, ?_, rfl, hsound.currentTime_play s.now⟩
  intro a ha
  exact ⟨now_of_steers ha s, playerTime_of_steers ha s⟩

/-- Played at thrice the speed, and then backwards at twice the speed. -/
def reversedRun : List Action :=
  [.setRate 3, .play, .advance (.clamp 300), .setRate (-2), .advance (.clamp 100)]

/-- Another rate takes over in full motion; and cancelled on the way, with the clock going on and
the rate changed once more, the player starts again at zero. -/
theorem currentTime_unmoved_reversedRun :
    let s := (ofTiming none).after reversedRun
    s.playerTime = .resolved (.clamp 700) ∧
      (s.step (.setRate 0.5)).1.playerTime = .resolved (.clamp 700) ∧
      (((ofTiming none).after (reversedRun ++ [.cancel, .advance (.clamp 50), .setRate 5])).step
        .play).1.playerTime =
        .resolved .zero := by
  intro s
  have htime : s.playerTime = .resolved (.clamp 700) := by decide +kernel
  have hrates : ∀ rate,
      Action.setRate rate ∈ reversedRun ++ [.cancel, .advance (.clamp 50), .setRate 5] →
      isFinite rate = true := by
    intro rate hrate
    simp only [reversedRun, List.cons_append, List.nil_append, List.mem_cons,
      Action.setRate.injEq, reduceCtorEq, List.not_mem_nil, false_or, or_false] at hrate
    rcases hrate with rfl | rfl | rfl <;> decide +kernel
  refine ⟨htime, ?_, ?_⟩
  · have hsteers : (Action.setRate 0.5).Steers := by
      show isFinite 0.5 = true
      decide +kernel
    have hsteady := (currentTime_unmoved none fun rate hrate =>
      hrates rate (List.mem_append_left _ hrate)).2.1 _ hsteers
    exact hsteady.2.trans htime
  · exact (currentTime_unmoved none hrates).2.2.2

end Stage

end EffectTiming
