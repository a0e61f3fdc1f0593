import TapeMachine.Proofs.Machine.Growth
import TapeMachine.Proofs.Session.Visited

/-!
# Growth by steps

The bounds on what a number of rules can make of a machine hold for the step count of a
session, which counts the rules that were applied on the way from the loaded machine,
whatever was done in between.
-/

namespace TapeMachine.Session

open Machine (GrownBy)

variable {p : Program} {input : String} {m₀ m : Machine} {k : Nat}

theorem grownBy_of_reachesIn (hm : p.machine input = .ok m₀) (hr : m₀.ReachesIn k m) :
    m.GrownBy input.length k := by
  obtain ⟨_, _, h⟩ := hr.exists_sweeps (Machine.sweeps_of_ofInput (Program.machine_eq_ok_iff.1 hm))
  exact h.grownBy

/-- The limit that holds where none is named is far below the number of 64-bit
addresses on one side. -/
theorem default_maxSteps_lt : 2 * ({} : Settings).maxSteps.toNat < UInt64.size := by
  decide

/-- After `k` rules on an input, the head is no farther than `k` from address 0 and at an even
distance just if `k` is even; what is written lies at most `k - 1` from address 0 or on the input;
and neither the stored cells nor the text of the tape are more than `k` symbols longer than the
input. As long as `k` rules are fewer than there are positive 64-bit addresses, which holds within
the default limit, moving the head with signed 64-bit words is exact. A session is bounded in the
same way by its step count, whatever is done with it. -/
theorem head_and_tape_grow_by_steps (hm : p.machine input = .ok m₀) :
    (∀ k m, m₀.ReachesIn k m → m.GrownBy input.length k) ∧
    (∀ k m a, m₀.ReachesIn k m → 2 * (k + 1) < UInt64.size ∨
      k + 1 ≤ ({} : Settings).maxSteps.toNat →
      (Int64.ofInt m.now.head + Int64.ofInt a.direction.offset).toInt = (m.apply a).head) ∧
    ∀ recorded s, start p input recorded = .ok s → ∀ operations,
      let m := (s.performAll operations).machine
      m₀.ReachesIn m.now.steps.toNat m ∧ m.GrownBy input.length m.now.steps.toNat := by
  refine ⟨fun k m => grownBy_of_reachesIn hm, ?_, ?_⟩
  · intro k m a hr hlimit
    have hhead := (grownBy_of_reachesIn hm hr).head
    have hdefault := default_maxSteps_lt
    exact Machine.toInt_head_apply a (by omega)
  · intro recorded s hs operations m
    have hr : m₀.ReachesIn m.now.steps.toNat m := reachesIn_performAll hm hs operations
    exact ⟨hr, grownBy_of_reachesIn hm hr⟩

/-- To the left of the input as fast as a head can go, back by one step and on again. -/
theorem head_and_tape_grow_by_steps_leftwards :
    ∃ p m s, Program.ofText {} "INIT a INIT b L\nINIT _ HALT c L" = .ok p ∧ p.machine "a" = .ok m ∧
      start p "a" true = .ok s ∧
      let t := s.performAll [.stepN 9, .rewind 1, .step]
      t.machine.now.steps = 2 ∧ t.machine.now.head = -2 ∧ m.ReachesIn 2 t.machine ∧
        t.machine.GrownBy 1 2 ∧
        (Int64.ofInt t.machine.now.head + Int64.ofInt Direction.left.offset).toInt = -3 := by
  obtain ⟨p, m, hp, hm, htest⟩ := Program.exists_machine {} "INIT a INIT b L\nINIT _ HALT c L" "a"
    (fun p m =>
      let s : Session := ⟨m, some .empty, p.settings.maxSteps⟩
      let t := s.performAll [.stepN 9, .rewind 1, .step]
      t.machine.now.steps == 2 && t.machine.now.head == -2) (by decide +kernel)
  simp only [Bool.and_eq_true, beq_iff_eq] at htest
  obtain ⟨hsteps, hhead⟩ := htest
  have hs : start p "a" true = .ok ⟨m, some .empty, p.settings.maxSteps⟩ := start_of_machine hm true
  obtain ⟨_, hexact, hsession⟩ := head_and_tape_grow_by_steps hm
  obtain ⟨hr, hgrown⟩ := hsession true _ hs [.stepN 9, .rewind 1, .step]
  have htwo : (2 : UInt64).toNat = 2 := by decide
  rw [hsteps, htwo] at hr hgrown
  refine ⟨p, m, _, hp, hm, hs, hsteps, hhead, hr, hgrown, ?_⟩
  have hmove := hexact 2 _ ⟨"INIT", 'b', .left⟩ hr (.inl (by decide))
  rw [Machine.apply, hhead] at hmove
  rw [hhead]
  exact hmove

end TapeMachine.Session
