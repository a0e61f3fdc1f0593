import TapeMachine.Proofs.Machine.Picture
import TapeMachine.Proofs.Rule.RoundTrip
import TapeMachine.Proofs.Session.Failures
import TapeMachine.Proofs.Session.Visited
import TapeMachine.Proofs.Table.Build

/-!
# White space on tapes

Rules are made of words, so a machine never writes white space. An input may hold any white space
but spaces; it stays where it was loaded until it is overwritten (`Machine.WhiteSpaceFrom`), and a
line feed among it takes the row of cells of a picture apart.
-/

namespace TapeMachine

open Text

variable {s : Settings} {text input : String} {p : Program} {m m' m₀ : Machine}

namespace Program

/-- An accepted rule text lets a machine write symbols other than white space and go into
states that are words. -/
theorem isWord_of_get? (hp : ofText s text = .ok p) {state : String} {symbol : Char} {a : Action}
    (ha : p.table.get? state symbol = some a) :
    isWhiteSpace a.newSymbol = false ∧ IsWord a.newState.toList := by
  obtain ⟨_, hrules, htable, _⟩ := ofText_eq_ok_iff.1 hp
  have hmem := (Table.get?_eq_some_iff_of_build htable state symbol a).1 ha
  obtain ⟨l, hl⟩ := Rule.exists_line_of_forall₂ (Rule.parse_eq_ok_iff.1 hrules).2 _ hmem
  have hwords := hl.isWord
  simp only [Rule.wordsOf, List.forall_mem_cons] at hwords
  obtain ⟨_, _, hnewState, hnewSymbol, _⟩ := hwords
  exact ⟨(isSolid_cons.1 hnewSymbol.2).1, hnewState⟩

end Program

namespace Machine

/-- White space stands on the tape only where `input` has it, and the machine does not write any. -/
structure WhiteSpaceFrom (input : List Char) (m : Machine) : Prop where
  rules : ∀ state symbol a, m.table.get? state symbol = some a →
    isWhiteSpace a.newSymbol = false ∧ IsWord a.newState.toList
  state : IsWord m.now.state.toList
  tape : ∀ a, isWhiteSpace (m.now.tape.read m.settings.blank a) = true →
    0 ≤ a ∧ input[a.toNat]? = some (m.now.tape.read m.settings.blank a)

theorem space_notMem_of_ofInput {t : Table} (h : ofInput s t input = .ok m) :
    ' ' ∉ input.toList := by
  intro hspace
  obtain ⟨fault, hfault⟩ : ∃ fault, Refuses s.maxTapeLen input fault :=
    exists_refuses_iff.2 (.inl hspace)
  have hload : (initial s t).load input = (.error fault, initial s t) :=
    load_eq_error_iff.2 ⟨hfault, rfl⟩
  rw [ofInput, hload] at h
  cases h

theorem whiteSpaceFrom_of_machine (hp : Program.ofText s text = .ok p)
    (hm : p.machine input = .ok m) : m.WhiteSpaceFrom input.toList := by
  obtain ⟨hcheck, _, _, rfl⟩ := Program.ofText_eq_ok_iff.1 hp
  have hs := Settings.check_eq_ok_iff.1 hcheck
  obtain rfl := now_of_ofInput (Program.machine_eq_ok_iff.1 hm)
  refine ⟨fun _ _ _ ha => Program.isWord_of_get? hp ha, hs.initState, fun a ha => ?_⟩
  refine Tape.getElem?_of_read_ofInput_ne fun hblank => ?_
  have hwhite :
    isWhiteSpace ((Tape.ofInput p.settings.blank input).read p.settings.blank a) = true := ha
  rw [hblank, hs.blank] at hwhite
  cases hwhite

namespace WhiteSpaceFrom

variable {symbols : List Char}

theorem applies (h : m.WhiteSpaceFrom symbols) (ha : m.Applies m') : m'.WhiteSpaceFrom symbols := by
  obtain ⟨_, a, hget, rfl⟩ := ha
  obtain ⟨hsymbol, hstate⟩ := h.rules _ _ a hget
  refine ⟨h.rules, hstate, fun b => ?_⟩
  dsimp only
  rw [read_apply]
  split
  · intro hwhite
    rw [hsymbol] at hwhite
    cases hwhite
  · exact h.tape b

theorem reachesIn {n : Nat} (h : m.WhiteSpaceFrom symbols) (hr : m.ReachesIn n m') :
    m'.WhiteSpaceFrom symbols := by
  induction hr with
  | zero => exact h
  | step _ ha ih => exact ih.applies ha

theorem newline_notMem_row (h : m.WhiteSpaceFrom symbols) (hno : '\n' ∉ symbols) (window : UInt64) :
    '\n' ∉ m.row window := by
  intro hmem
  obtain ⟨a, ha⟩ := Tape.exists_read_of_mem_slice hmem
  have hsymbol := (h.tape a (by rw [ha]; rfl)).2
  rw [ha] at hsymbol
  exact hno (List.mem_of_getElem? hsymbol)

end WhiteSpaceFrom

end Machine

namespace Program

/-- Sessions visit nothing but what their machine can visit. Of any machine visited from a loaded
one: white space stored on the tape is that of the input at the same place, and is no space. Its
picture has the lines of the row of cells, then one with the caret and one with the state, so it has
three lines and one for each line feed that is shown; if the input has no line feed, just three. The
caret is under the cell of the head if the ends of the row are addresses, which they are as long as
the steps made, the input and the window leave room. -/
theorem white_space_is_as_loaded (hp : ofText s text = .ok p) (hm : p.machine input = .ok m₀) :
    (∀ recorded session operations, Session.start p input recorded = .ok session →
      m₀.Visits (session.performAll operations).machine) ∧
    ∀ m, m₀.Visits m →
      (∀ (a : Int) c, m.now.tape.cells[a]? = some c → isWhiteSpace c = true →
        c ≠ ' ' ∧ 0 ≤ a ∧ input.toList[a.toNat]? = some c) ∧
      ∀ window,
        let row := m.row window
        let below := [List.replicate (m.caret window) ' ' ++ ['^'], m.now.state.toList]
        let shown := lines (m.render window).toList
        shown = lines row ++ below ∧ shown.length = row.count '\n' + 3 ∧
        ('\n' ∉ input.toList → shown = row :: below) ∧
        (m.WithinAddresses window → row[m.caret window]? = some m.symbol) ∧
        ∀ n, m₀.ReachesIn n m →
          2 * (2 * n + input.length + m.reach window) < UInt64.size → m.WithinAddresses window := by
  refine ⟨fun _ _ operations hs => Session.visits_machine_performAll hm hs operations,
    fun m hvisits => ?_⟩
  have hinput := machine_eq_ok_iff.1 hm
  obtain ⟨n, hr⟩ := hvisits.reachesIn (Machine.fresh_of_ofInput hinput)
  have hwhite := (Machine.whiteSpaceFrom_of_machine hp hm).reachesIn hr
  constructor
  · intro a c hc hcwhite
    have hread := Tape.read_eq_of_getElem? hc m.settings.blank
    obtain ⟨hnonneg, hget⟩ := hwhite.tape a (by rwa [hread])
    rw [hread] at hget
    refine ⟨?_, hnonneg, hget⟩
    rintro rfl
    exact Machine.space_notMem_of_ofInput hinput (List.mem_of_getElem? hget)
  · intro window row below shown
    have hshown : shown = lines row ++ below :=
      Machine.lines_render hwhite.state.newline_notMem window
    refine ⟨hshown, ?_, ?_, Machine.WithinAddresses.getElem?_row, fun k hk hroom => ?_⟩
    · rw [hshown, List.length_append, length_lines]
      rfl
    · intro hno
      rw [hshown, lines_of_notMem (hwhite.newline_notMem_row hno window), List.singleton_append]
    · have hwithin := (Machine.staysWithin_of_ofInput hinput).reachesIn hk
      exact hwithin.withinAddresses (by omega)

/-- A tab that nothing overwrites, in a session that went back: it is still where it was loaded, and
takes no line of its own. -/
theorem white_space_is_as_loaded_tab :
    ∃ p m₀ session, ofText {} "INIT a INIT b R\nINIT _ HALT c L" = .ok p ∧
      p.machine "aa\t" = .ok m₀ ∧
      Session.start p "aa\t" true = .ok session ∧
      let m := (session.performAll [.stepN 2, .rewind 1]).machine
      m.now.tape.cells[(2 : Int)]? = some '\t' ∧ "aa\t".toList[2]? = some '\t' ∧
        (lines (m.render 3).toList).length = 3 ∧ (m₀.row 3)[m₀.caret 3]? = some m₀.symbol := by
  obtain ⟨p, m₀, hp, hm, htest⟩ := exists_machine {} "INIT a INIT b R\nINIT _ HALT c L" "aa\t"
    (fun p m₀ =>
      let session : Session := ⟨m₀, some .empty, p.settings.maxSteps⟩
      let m := (session.performAll [.stepN 2, .rewind 1]).machine
      m.now.tape.cells[(2 : Int)]? == some '\t' && decide (m₀.reach 3 = 3)) (by decide +kernel)
  simp only [Bool.and_eq_true, beq_iff_eq, decide_eq_true_eq] at htest
  obtain ⟨hcell, hreach⟩ := htest
  obtain ⟨hsessions, hvisited⟩ := white_space_is_as_loaded hp hm
  have hs := Session.start_of_machine hm true
  obtain ⟨hwhite, hpicture⟩ := hvisited _ (hsessions true _ [.stepN 2, .rewind 1] hs)
  obtain ⟨_, _, hthree, _⟩ := hpicture 3
  obtain ⟨_, hpicture₀⟩ := hvisited m₀ .start
  obtain ⟨_, _, _, hcaret, hroom⟩ := hpicture₀ 3
  refine ⟨p, m₀, _, hp, hm, hs, hcell, (hwhite 2 '\t' hcell rfl).2.2, ?_, ?_⟩
  · rw [hthree (by decide)]
    rfl
  · exact hcaret (hroom 0 .zero (by rw [hreach]; decide))

/-- A line feed on the tape takes the row of cells apart; and the caret is under no cell if a row of
nearly all addresses is asked for. -/
theorem loaded_line_feed_breaks_picture :
    (∃ p m, ofText {} "INIT a HALT b R" = .ok p ∧ p.machine "a\nb" = .ok m ∧
      m.now.tape.cells[(1 : Int)]? = some '\n' ∧ isWhiteSpace '\n' = true ∧
      lines (m.render 0).toList = ["a", "b", "^", "INIT"].map String.toList) ∧
    let s : Settings := { maxTapeLen := 9223372036854775807 }
    ∃ p m, ofText s "INIT a HALT b R" = .ok p ∧ p.machine "a" = .ok m ∧
      lines (m.step.2.render s.maxTapeLen).toList = ["", "^", "HALT"].map String.toList := by
  constructor
  · obtain ⟨p, m, hp, hm, hcell⟩ := exists_machine {} "INIT a HALT b R" "a\nb"
      (fun _ m => m.now.tape.cells[(1 : Int)]? == some '\n') (by decide +kernel)
    refine ⟨p, m, hp, hm, beq_iff_eq.1 hcell, rfl, ?_⟩
    have hfirst : (Tape.ofInput '_' "a\nb").first? = some 0 :=
      Tape.first?_ofInput (c := 'a') rfl (by decide)
    have hlast : (Tape.ofInput '_' "a\nb").last? = some 2 :=
      Tape.last?_ofInput (n := 2) (c := 'b') rfl rfl (by decide)
    rw [Machine.now_of_ofInput (machine_eq_ok_iff.1 hm), settings_of_ofText hp]
    simp only [Machine.render, Machine.row, Machine.caret, Machine.leftEnd, Machine.rightEnd,
      Machine.low, Machine.high, Machine.reach, Configuration.initial, hfirst, hlast]
    decide +kernel
  · intro s
    obtain ⟨p, m, hp, hm, hhalted⟩ := exists_machine s "INIT a HALT b R" "a"
      (fun _ m => m.step.2.settings == s && m.step.2.now == ⟨1, .ofInput '_' "b", 1, "HALT"⟩)
      (by decide +kernel)
    simp only [Bool.and_eq_true, beq_iff_eq] at hhalted
    obtain ⟨hsettings, hnow⟩ := hhalted
    refine ⟨p, m, hp, hm, ?_⟩
    have hfirst : (Tape.ofInput '_' "b").first? = some 0 :=
      Tape.first?_ofInput (c := 'b') rfl (by decide)
    have hlast : (Tape.ofInput '_' "b").last? = some 0 :=
      Tape.last?_ofInput (n := 0) (c := 'b') rfl rfl (by decide)
    simp only [Machine.render, Machine.row, Machine.caret, Machine.leftEnd, Machine.rightEnd,
      Machine.low, Machine.high, Machine.reach, hsettings, hnow, hfirst, hlast]
    decide +kernel

end Program

end TapeMachine
