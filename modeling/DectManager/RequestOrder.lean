/-
# The order of the requests

The manager keeps `radio`, `dect_init` and the ping flags so as not to send the
stack a request that it cannot take.  `Acceptor` is the other side: what the requests
received so far let the stack take next.  `accept` refuses

* a start of the protocol while it runs, and a stop while it does not;
* a registration mode while the protocol does not run;
* a deletion before the features have been asked for;
* a release when every call set up has been released.

`requests_in_order` says that after every run the stack has accepted all that was
written, in the order in which it was written, and that the manager's variables
agree with what it has made of the stack: the guards of the effects are just what
the stack asks for.
-/
import DectManager.Effects
import DectManager.Writes

namespace DectManager

open PartialRun

/-! ## The other side -/

/-- What the requests received so far have made of the stack. -/
structure Acceptor where
  /-- the last request about the protocol was to start it -/
  running : Bool
  /-- the features have been asked for -/
  featured : Bool
  /-- the calls set up and not released -/
  calls : ℕ

namespace Acceptor

/-- The stack before the first request. -/
def fresh : Acceptor := ⟨false, false, 0⟩

/-- The stack takes a request, or refuses it. -/
def accept (p : Acceptor) : Request → Option Acceptor
  | .startProtocolReq => if p.running then none else some { p with running := true }
  | .stopProtocolReq => if p.running then some { p with running := false } else none
  | .setRegistrationModeReq _ _ => if p.running then some p else none
  | .featuresReq _ => some { p with featured := true }
  | .deleteRegistrationReq _ => if p.featured then some p else none
  | .setupReq .. => some { p with calls := p.calls + 1 }
  | .releaseReq .. => if p.calls = 0 then none else some { p with calls := p.calls - 1 }
  | _ => some p

end Acceptor

/-- The ping timers that are pending. -/
def pingTimers (timers : List Timer) : ℕ := timers.countP fun t => t.callback.isPing

/-- The stack has accepted all requests written, and the manager's variables agree with what
this has made of it: each pending ping timer has a call to release. -/
structure Follows (w : World) (p : Acceptor) : Prop where
  accepted : run Acceptor.accept Acceptor.fresh (written w).reverse = some p
  running : p.running = decide (w.status.radio = .enabled)
  featured : p.featured = w.status.dectInit
  calls : pingTimers w.timers ≤ p.calls

/-- The requests written are in order. -/
def InOrder (w : World) : Prop := ∃ p, Follows w p

/-! ## One effect -/

section Effect

variable {w w' : World}

/-- An effect that writes nothing and leaves the variables alone. -/
theorem InOrder.of_eq (h : InOrder w) (hwritten : written w' = written w)
    (hradio : w'.status.radio = w.status.radio) (hinit : w'.status.dectInit = w.status.dectInit)
    (htimers : pingTimers w'.timers ≤ pingTimers w.timers) : InOrder w' := by
  obtain ⟨p, hp⟩ := h
  exact ⟨p, by rw [hwritten, hp.accepted], by rw [hradio, hp.running], by rw [hinit, hp.featured],
    htimers.trans hp.calls⟩

/-- The stack accepts one more request. -/
theorem accepted_writeDect {p p' : Acceptor} {m : Request}
    (h : run Acceptor.accept Acceptor.fresh (written w).reverse = some p)
    (hm : p.accept m = some p') :
    run Acceptor.accept Acceptor.fresh (written (writeDect m w)).reverse = some p' := by
  rw [written_writeDect, List.reverse_cons, run_concat, h]
  exact hm

/-- A request that is written whatever the variables say can always be taken. -/
theorem Acceptor.accept_of_isFree {m : Request} (h : m.isFree = true) (p : Acceptor) :
    p.accept m = some p := by
  cases m <;> first | rfl | cases h

/-- A ping timer that fires leaves one less. -/
theorem pingTimers_erase {timers : List Timer} {t : Timer} (ht : t ∈ timers)
    (hping : t.callback.isPing = true) : pingTimers (timers.erase t) + 1 = pingTimers timers := by
  have hpos : 0 < pingTimers timers := List.countP_pos_iff.mpr ⟨t, ht, hping⟩
  unfold pingTimers at hpos ⊢
  rw [List.countP_erase, if_pos ⟨ht, hping⟩]
  omega

/-- **One effect** keeps the requests in order: what guards it is what the stack asks for. -/
theorem inOrder_effect (h : Effect w w') (hw : InOrder w) : InOrder w' := by
  obtain ⟨p, hp⟩ := id hw
  have hrunning (hon : w.status.radio = .enabled) : p.running = true := by
    rw [hp.running, hon]
    rfl
  have hstopped (hoff : w.status.radio = .disabled) : p.running = false := by
    rw [hp.running, hoff]
    rfl
  cases h with
  | start _ hoff =>
      refine ⟨{ p with running := true }, ?_, rfl, hp.featured, hp.calls⟩
      refine accepted_writeDect hp.accepted ?_
      simp [Acceptor.accept, hstopped hoff]
  | stop _ hon =>
      refine ⟨{ p with running := false }, ?_, rfl, hp.featured, hp.calls⟩
      exact accepted_writeDect hp.accepted (if_pos (hrunning hon))
  | features _ =>
      exact ⟨{ p with featured := true }, accepted_writeDect hp.accepted rfl, hp.running, rfl,
        hp.calls⟩
  | mode enabled delete _ hon =>
      exact ⟨p, accepted_writeDect hp.accepted (if_pos (hrunning hon)), hp.running, hp.featured,
        hp.calls⟩
  | delete handset _ hinit =>
      have hfeatured : p.featured = true := by rw [hp.featured, hinit]
      exact ⟨p, accepted_writeDect hp.accepted (if_pos hfeatured), hp.running, hp.featured,
        hp.calls⟩
  | write m _ hm =>
      exact ⟨p, accepted_writeDect hp.accepted (Acceptor.accept_of_isFree hm p), hp.running,
        hp.featured, hp.calls⟩
  | ping handset _ =>
      refine ⟨{ p with calls := p.calls + 1 }, accepted_writeDect hp.accepted rfl, hp.running,
        hp.featured, ?_⟩
      show (List.countP _ (_ :: w.timers)) ≤ p.calls + 1
      rw [List.countP_cons_of_pos rfl]
      exact Nat.succ_le_succ hp.calls
  | release t _ ht hping =>
      have hcalls := hp.calls
      have hcount := pingTimers_erase ht hping
      refine ⟨{ p with calls := p.calls - 1 }, accepted_writeDect hp.accepted ?_, hp.running,
        hp.featured, ?_⟩
      · exact if_neg (by omega)
      · show pingTimers (w.timers.erase t) ≤ p.calls - 1
        omega
  | fire t _ => exact hw.of_eq rfl rfl rfl List.erase_sublist.countP_le
  | arm callback usec _ hc =>
      refine hw.of_eq rfl rfl rfl ?_
      simp [World.arm, pingTimers, hc]
  | _ => exact hw.of_eq rfl rfl rfl le_rfl

end Effect

/-! ## Runs -/

theorem inOrder_initial (config : Config) : InOrder (initial config) :=
  ⟨Acceptor.fresh, rfl, rfl, rfl, le_rfl⟩

/-- **One step** keeps the requests in order. -/
theorem inOrder_step {w w' : World} {e : Event} (hw : InOrder w) (h : step w e = some w') :
    InOrder w' :=
  invariant_step (fun _ _ => inOrder_effect) (fun _ hv => hv.of_eq rfl rfl rfl le_rfl) hw h

/-- **The requests are in order.**  Throughout every run the stack can accept all that the manager
has written, in the order in which it was written: the protocol is started and stopped in turn,
registration modes are set only while it runs, nothing is deleted before the features have been
asked for, and no more calls are released than have been set up.  What this makes of the stack is
what `radio` and `dect_init` say, and a call is left to release for each pending ping timer. -/
theorem requests_in_order (config : Config) (es : List Event) :
    Throughout step (fun _ w => InOrder w) (initial config) es := by
  refine throughout_of_run (run_induction (inOrder_initial config) ?_) es
  intro _ w e w' _ hw he
  exact inOrder_step hw he

end DectManager
