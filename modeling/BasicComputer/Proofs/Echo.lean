import BasicComputer.Proofs.WrittenLines

/-!
# Echo

A program that reads a byte and writes it, in a loop that counts up to zero, copies its input to the
output. Neither does a byte arrive with the instruction that reads it nor does it leave with the one
that writes it: reading asks for a byte, which comes with the fetch of the next instruction, and
writing leaves the byte pending until a fetch delivers it. In this program the next instructions are
there in time, so a round takes in one byte and delivers this very byte.

The program is proved as it is written, for any number of rounds up to 32768 and any input that is
long enough.

The loop is in step with its bytes only because the instruction behind `INP` is the one that writes,
and because a fetch comes before everything else that an instruction does. The processor has both
byte registers as part of its state, so a round is told by four instructions and what each of them
finds there. At the beginning of a round nothing is pending and nothing is asked for, and this is
part of the invariant.
-/

namespace BasicComputer

namespace Echo

/-! ## The program -/

/-- The text of the program that copies `n` bytes. -/
def text (n : Nat) : String :=
  "\n".intercalate
    ["LOOP, INP", "OUT", "ISZ CNT", "BUN LOOP", "HLT", "CNT, DEC -" ++ toString n, "END"]

/-- The lines of the program, with a counter that starts with `c`. -/
def lines (c : Word) : List Written :=
  [⟨some "LOOP", .item (.io .inp)⟩, ⟨none, .item (.io .out)⟩, ⟨none, .reference .isz "CNT"⟩,
    ⟨none, .reference .bun "LOOP"⟩, ⟨none, .item (.register .hlt)⟩,
    ⟨some "CNT", .item (.datum .decimal c)⟩, ⟨none, .finish⟩]

def start (n : Nat) : Word := .ofInt 16 (-n)

section Start

variable {n : Nat} (h1 : 1 ≤ n) (hn : n ≤ 32768)

include h1 hn

theorem toNat_start : (start n).toNat = 65536 - n := by
  rw [start, BitVec.toNat_ofInt]
  omega

theorem source_lines : Written.source (lines (start n)) = text n := by
  have hcounter : toString (start n).toInt = "-" ++ toString n := by
    have hint : (start n).toInt = -n := by
      rw [start, BitVec.toInt_ofInt, Int.bmod_eq_of_le (by omega) (by omega)]
    obtain ⟨m, rfl⟩ := Nat.exists_eq_add_of_le' h1
    rw [hint]
    rfl
  simp only [Written.source, lines, List.map_cons, List.map_nil, Written.text, Phrase.text,
    Item.text, Radix.numeral, hcounter]
  rfl

end Start

theorem isProgram_lines (c : Word) : Written.IsProgram (lines c) where
  proper := of_decide_eq_true rfl
  first := by
    rintro w ⟨rfl⟩ name ⟨rfl⟩
    decide
  ends := by rfl
  places := by rfl
  names := by rfl

/-- The operations. -/
def code : List (Nat × Word) :=
  [(0, encode (.io .inp)), (1, encode (.io .out)), (2, encode (.memory .isz 5 false)),
    (3, encode (.memory .bun 0 false)), (4, encode (.register .hlt))]

/-- Memory with a counter behind the operations. -/
def memory (counter : Word) : Address → Word := Function.update (imageOf code) 5 counter

theorem imageOf_lines (c : Word) :
    imageOf (Program.ofEmissions (effectsOf (Written.lines (lines c)))).words = memory c := by
  have hwords : (Program.ofEmissions (effectsOf (Written.lines (lines c)))).words =
      code ++ [(5, Radix.decimal.word (String.ofList (Radix.decimal.digits c)).toList)] := rfl
  rw [hwords, Radix.word_toList_digits, memory, ← imageOf_concat]
  rfl

/-- The processor in the program, with `k` of the bytes copied. -/
def processor (bytes : List Byte) (k : Nat) (counter ac : Word) (inpr outr : Byte) (pc : Address) :
    Processor :=
  { Processor.start pc (memory counter) with
    ac := ac
    inpr := inpr
    outr := outr
    input := bytes.drop k
    output := bytes.take k }

theorem loads_lines {n : Nat} (h1 : 1 ≤ n) (hn : n ≤ 32768) (bytes : List Byte) {σ : Type} [Sink σ]
    (s : Simulator σ) :
    ∃ p s', (assemble (text n)).outcome = .ok p ∧ s.load p = (.ok (), s') ∧
      (s'.modify (·.setInput bytes)).machine.Ready (processor bytes 0 (start n) 0 0 0 0) := by
  have hentry : (Program.ofEmissions (effectsOf (Written.lines (lines (start n))))).entryPoint =
      some 0 := rfl
  obtain ⟨p, s', hassemble, hload, hready⟩ := (isProgram_lines (start n)).loaded hentry s
  rw [source_lines h1 hn] at hassemble
  rw [imageOf_lines] at hready
  exact ⟨p, s', hassemble, hload, hready.setInput bytes⟩

/-! ## A round -/

open Processor

theorem setWidth_mergeByte (w : Word) (b : Byte) : (mergeByte w b).setWidth 8 = b :=
  BitVec.setWidth_append_eq_right

section Round

variable (bytes : List Byte) (k : Nat) (counter ac : Word) (inpr outr : Byte)

theorem runs_inp : Runs 4 (processor bytes k counter ac inpr outr 0)
    { processor bytes k counter (mergeByte ac inpr) inpr outr 1 with fgi := false } :=
  .of_io rfl .inp rfl rfl

/-- The byte is there with the next fetch, so it is this one that is written. -/
theorem runs_out (hk : k < bytes.length) :
    Runs 4 { processor bytes k counter ac inpr outr 1 with fgi := false }
      { processor bytes (k + 1) counter (mergeByte ac bytes[k]) bytes[k] bytes[k] 2 with
        fgo := false
        output := bytes.take k } := by
  have hinput : bytes.drop k = bytes[k] :: bytes.drop (k + 1) := List.drop_eq_getElem_cons hk
  refine .of_io rfl .out rfl ?_
  rw [fetch_of_asked rfl rfl hinput]
  exact congrArg (fun b ↦
    { processor bytes (k + 1) counter (mergeByte ac bytes[k]) bytes[k] b 2 with
      fgo := false, output := bytes.take k }) (setWidth_mergeByte ac bytes[k])

theorem runs_isz (hk : k < bytes.length) :
    Runs 7 { processor bytes (k + 1) counter ac inpr bytes[k] 2 with
        fgo := false
        output := bytes.take k }
      ((processor bytes (k + 1) (counter + 1) ac inpr bytes[k] 3).skipIf (counter + 1 == 0)) := by
  have houtput : bytes.take k ++ [bytes[k]] = bytes.take (k + 1) := List.take_concat_get' bytes k hk
  have hmemory : Function.update (memory counter) 5 (counter + 1) = memory (counter + 1) :=
    Function.update_idem ..
  refine .of_memory rfl .isz 5 rfl ?_
  rw [fetch_of_fgi rfl]
  exact congrArg₂ (fun m out ↦ skipIf _
    { processor bytes (k + 1) counter ac inpr bytes[k] 3 with memory := m, output := out })
    hmemory houtput

theorem runs_bun : Runs 5 (processor bytes k counter ac inpr outr 3)
    (processor bytes k counter ac inpr outr 0) :=
  .of_memory rfl .bun 0 rfl rfl

theorem runs_hlt : Runs 4 (processor bytes k counter ac inpr outr 4)
    { processor bytes k counter ac inpr outr 5 with s := false } :=
  .of_register rfl .hlt rfl rfl

/-- A round up to where it is decided whether there is another copies one byte. -/
theorem runs_round (hk : k < bytes.length) :
    ∃ ac' b, Runs 15 (processor bytes k counter ac inpr outr 0)
      ((processor bytes (k + 1) (counter + 1) ac' b b 3).skipIf (counter + 1 == 0)) := by
  have hcopies := (runs_out bytes k counter (mergeByte ac inpr) inpr outr hk).trans
    (runs_isz bytes k counter _ _ hk)
  exact ⟨_, bytes[k], (runs_inp bytes k counter ac inpr outr).trans hcopies⟩

end Round

/-! ## All rounds -/

/-- Whenever a round begins, the counter tells how many of the `n` bytes are copied. -/
def Invariant (bytes : List Byte) (n : Nat) (counter : Word) (p : Processor) : Prop :=
  ∃ k ac inpr outr, p = processor bytes k counter ac inpr outr 0 ∧ k + 65536 = n + counter.toNat

/-- The program has halted with `n` bytes copied. -/
def Finished (bytes : List Byte) (n : Nat) (p : Processor) : Prop :=
  ∃ ac inpr outr, p = { processor bytes n 0 ac inpr outr 5 with s := false }

variable {bytes : List Byte} {n : Nat} {counter : Word} {p : Processor}

theorem next_round (hn : n ≤ bytes.length) (hlt : counter.toNat < 65535)
    (h : Invariant bytes n counter p) :
    ∃ q, Runs 20 p q ∧ Invariant bytes n (counter + 1) q := by
  obtain ⟨k, ac, inpr, outr, rfl, hk⟩ := h
  obtain ⟨hsucc, hne⟩ := toNat_succ_of_lt hlt
  obtain ⟨ac', b, hround⟩ := runs_round bytes k counter ac inpr outr (by omega)
  rw [beq_eq_false_iff_ne.mpr hne] at hround
  exact ⟨_, hround.trans (runs_bun ..), k + 1, ac', b, b, rfl, by omega⟩

theorem last_round (hn : n ≤ bytes.length) (h : Invariant bytes n 65535 p) :
    ∃ q, Runs 19 p q ∧ Finished bytes n q := by
  obtain ⟨k, ac, inpr, outr, rfl, hk⟩ := h
  obtain rfl : k + 1 = n := by
    have hend : (65535 : Word).toNat = 65535 := rfl
    omega
  obtain ⟨ac', b, hround⟩ := runs_round bytes k 65535 ac inpr outr hn
  exact ⟨_, hround.trans (runs_hlt ..), ac', b, b, rfl⟩

/-- From its start, the program comes to a halt with all `n` bytes copied. -/
theorem runs_all (h1 : 1 ≤ n) (hn : n ≤ 32768) (hbytes : n ≤ bytes.length) :
    ∃ q, Runs (20 * n - 1) (processor bytes 0 (start n) 0 0 0 0) q ∧ Finished bytes n q := by
  have hcounter := toNat_start h1 hn
  have hstart : Invariant bytes n (start n) (processor bytes 0 (start n) 0 0 0 0) :=
    ⟨0, 0, 0, 0, rfl, by omega⟩
  have hsteps : 20 * n - 1 = 20 * (65535 - (start n).toNat) + 19 := by omega
  rw [hsteps]
  exact Runs.of_rounds (fun _ _ ↦ next_round hbytes) (fun _ ↦ last_round hbytes) hstart

end Echo

open Echo in
/-- **Echo is faithful.** The text for any number of bytes up to 32768 is assembled and loaded, and
with at least as many bytes for input the program copies exactly these: it halts with the first `n`
bytes in the output, the others left in the input and nothing pending. A round takes 20 micro-steps
and the last one 19. -/
theorem echo_faithful {n : Nat} (h1 : 1 ≤ n) (hn : n ≤ 32768) {bytes : List Byte}
    (hbytes : n ≤ bytes.length) {σ : Type} [Sink σ] (s : Simulator σ) :
    ∃ p s₁ s₂, (assemble (text n)).outcome = .ok p ∧ s.load p = (.ok (), s₁) ∧
      Machine.LoopsFor (·.flags.s) (20 * n - 1) (s₁.modify (·.setInput bytes)).machine ∧
      (s₁.modify (·.setInput bytes)).run = some (.ok (20 * n - 1), s₂) ∧
      s₂ = Simulator.advance^[20 * n - 1] (s₁.modify (·.setInput bytes)) ∧
      s₂.machine.isHalted ∧ s₂.machine.output.toList = bytes.take n ∧
      s₂.machine.input = bytes.drop n ∧ s₂.machine.flags.fgo := by
  obtain ⟨p, s₁, hassemble, hload, hready⟩ := loads_lines h1 hn bytes s
  obtain ⟨q, hruns, ac, inpr, outr, rfl⟩ := runs_all h1 hn hbytes
  have hmax : 20 * n - 1 ≤ Machine.maxCycles := by
    have hlimit : 20 * 32768 ≤ Machine.maxCycles := by decide
    omega
  obtain ⟨hloops, hrun, hhalted, hend⟩ := Simulator.run_of_runs hready hruns rfl hmax
  exact ⟨p, s₁, _, hassemble, hload, hloops, hrun, rfl, hhalted, congrArg Processor.output hend,
    congrArg Processor.input hend, congrArg Processor.fgo hend⟩

/-- Two of three bytes are copied in two rounds. -/
theorem echo_faithful_twoBytes :
    1 ≤ 2 ∧ 2 ≤ 32768 ∧ 2 ≤ [(0x68 : Byte), 0x69, 0x21].length ∧
    ∃ p, ∃ s₁ s₂ : Simulator EventLog,
      (assemble "LOOP, INP\nOUT\nISZ CNT\nBUN LOOP\nHLT\nCNT, DEC -2\nEND").outcome = .ok p ∧
      (Simulator.withSink EventLog.empty).load p = (.ok (), s₁) ∧
      Machine.LoopsFor (·.flags.s) 39 (s₁.modify (·.setInput [0x68, 0x69, 0x21])).machine ∧
      (s₁.modify (·.setInput [0x68, 0x69, 0x21])).run = some (.ok 39, s₂) ∧
      s₂.machine.isHalted ∧ s₂.machine.output.toList = [0x68, 0x69] ∧
      s₂.machine.input = [0x21] ∧ s₂.machine.flags.fgo := by
  have hbytes : 2 ≤ [(0x68 : Byte), 0x69, 0x21].length := by decide
  obtain ⟨p, s₁, s₂, hassemble, hload, hloops, hrun, -, hend⟩ :=
    echo_faithful (by decide) (by decide) hbytes (Simulator.withSink EventLog.empty)
  exact ⟨by decide, by decide, hbytes, p, s₁, s₂, hassemble, hload, hloops, hrun, hend⟩

end BasicComputer
