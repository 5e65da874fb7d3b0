/-
# Pings and their timers

A ping timer is never cancelled: it outlives a ping that the handset has
answered, and several of them can be pending for one handset.  What the timers
are for is that no ping outlives all of them.

* `ringCovered_step`: a handset that rings has a timer of its own pending.  The
  timer of the last ping stays until it fires, and any of them ends the ringing.
* `pings_end`: so this holds in every reachable state; and the expiry of a ping
  timer leaves its handset's flag at `FALSE` and the other entries as they are.
-/
import DectManager.Pings
import DectManager.TransientModes

namespace DectManager

open PartialRun

/-! ## A ringing handset has a timer -/

/-- A ping arms a timer for its handset. -/
theorem pending_armedBy_of_pingOf {w : World} {e : Event} {handset : ℕ}
    (h : pingOf w e = some handset) : Pending (.pingHandsetStop handset) (armedBy w e) := by
  cases e with
  | client type data env =>
      simp only [pingOf, Option.ite_none_right_eq_some, Option.some.injEq] at h
      obtain ⟨⟨htype, hgood, hcfg⟩, rfl⟩ := h
      refine ⟨⟨.pingHandsetStop data.toNat, 20000000, w.clock⟩, ?_, rfl⟩
      simp only [armedBy, htype, PacketType.ofCode_code, hgood, hcfg, Bool.false_eq_true,
        or_self, if_false, List.mem_singleton]
  | _ => cases h

/-- A handset that rings has a ping timer pending. -/
def RingCovered (w : World) : Prop :=
  ∀ k : Fin maxNrHandsets, (w.status.handset k).pinging = true8 →
    Pending (.pingHandsetStop (k.val + 1)) w.timers

theorem ringCovered_initial (config : Config) : RingCovered (initial config) := by
  intro k hring
  exact absurd (show false8 = true8 from hring) (by decide)

/-- **One step.**  A handset that starts to ring gets a timer; the timer of one
that goes on ringing has not fired. -/
theorem ringCovered_step {w w' : World} {e : Event} (hw : RingCovered w)
    (h : step w e = some w') : RingCovered w' := by
  intro k hring
  rw [(timers_step h).1]
  rcases (flag_step h k).mp hring with hping | ⟨hold, hends⟩
  · obtain ⟨t, ht, hcb⟩ := pending_armedBy_of_pingOf hping
    exact ⟨t, List.mem_append_left _ ht, hcb⟩
  · refine ((hw k hold).leftPending fun t he hcb => hends ?_).append_right _
    rw [he]
    obtain ⟨callback, usec, armed⟩ := t
    obtain rfl : callback = .pingHandsetStop (k.val + 1) := hcb
    rfl

/-! ## What the expiry of a ping timer does -/

/-- The ping flags are `TRUE` or `FALSE`. -/
def FlagsBinary (w : World) : Prop :=
  ∀ k : Fin maxNrHandsets, (w.status.handset k).pinging = true8 ∨
    (w.status.handset k).pinging = false8

theorem flagsBinary_step {w w' : World} {e : Event} (hw : FlagsBinary w)
    (h : step w e = some w') : FlagsBinary w' := by
  intro k
  have hflag : (w'.status.handset k).pinging = (pingEffect w e).2 k :=
    congrFun (congrArg Prod.snd (pinging_step h)) k
  have hold : (pinging w).2 k = true8 ∨ (pinging w).2 k = false8 := hw k
  rw [hflag]
  unfold pingEffect
  split
  · simp only [ring]
    split_ifs
    · exact .inl rfl
    · exact hold
  · exact hold
  · simp only [hangUp]
    split_ifs
    · exact .inr rfl
    · exact hold
  · exact hold

/-- The event is the expiry of a timer that carries this handset. -/
def PingExpires (handset : ℕ) (e : Event) : Prop :=
  ∃ t, e = .timeout t ∧ t.callback = .pingHandsetStop handset

/-- If the event is the expiry of a ping timer, the handset's flag is `FALSE` after it
and the entries of the other handsets are as they were. -/
def EndsOwnPing (w : World) (e : Event) (w' : World) : Prop :=
  ∀ handset, PingExpires handset e →
    (∀ k : Fin maxNrHandsets, k.val + 1 = handset → (w'.status.handset k).pinging = false8) ∧
      ∀ k : Fin maxNrHandsets, k.val + 1 ≠ handset → w'.status.handset k = w.status.handset k

theorem endsOwnPing_step {w w' : World} {e : Event} (hw : FlagsBinary w)
    (h : step w e = some w') : EndsOwnPing w e w' := by
  rintro handset ⟨⟨callback, usec, armed⟩, rfl, rfl⟩
  have hflag (k : Fin maxNrHandsets) :
      (w'.status.handset k).pinging =
        if k.val + 1 = handset ∧ (w.status.handset k).pinging = true8 then false8
        else (w.status.handset k).pinging :=
    congrFun (congrArg Prod.snd (pinging_step h)) k
  refine ⟨fun k hk => ?_, fun k hk => ?_⟩
  · rw [hflag k]
    split_ifs with hring
    · rfl
    · exact (hw k).resolve_left fun hset => hring ⟨hk, hset⟩
  · have hreg : registry w' = registry w := registry_step h
    refine hset_eq_of_parts (congrFun hreg k) ?_
    rw [hflag k, if_neg fun hring => hk hring.1]

/-- **No handset rings for ever.**  In every reachable state a handset that rings has
a ping timer pending; and every expiry of such a timer leaves its handset's flag at
`FALSE` and changes no other entry. -/
theorem pings_end (config : Config) (es : List Event) :
    Throughout step (fun _ w => RingCovered w) (initial config) es ∧
      Along step (fun _ w e w' => EndsOwnPing w e w') (initial config) es := by
  constructor
  · refine throughout_of_run (run_induction (ringCovered_initial config) ?_) es
    intro _ w e w' _ hw he
    exact ringCovered_step hw he
  · have hbinary : ∀ pre w, run step (initial config) pre = some w → FlagsBinary w := by
      refine run_induction (fun _ => .inr rfl) ?_
      intro _ w e w' _ hw he
      exact flagsBinary_step hw he
    intro pre e _ w w' _ hrun he
    exact endsOwnPing_step (hbinary pre w hrun) he

end DectManager
