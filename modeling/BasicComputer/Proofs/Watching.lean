import BasicComputer.Proofs.Session

/-!
# Two simulators side by side

Two simulators with equal machines and different sinks are driven in the same way. Whatever is done
to them, they give the same answers and their machines stay equal, because each records the same
entries in its sink and looks at nothing that is there. This is one statement about all operations,
told as a relation between the two simulators: their machines are equal, and their sinks stand in
some relation that is kept whenever both take in one entry. Every operation keeps it, so a session
does.

What relation between the sinks is of interest is up to the reader. For an event log beside a
channel it is that both have passed on the same records, and that these are the records of the
entries in the log.

## A relation instead of two runs

Runs beside two sinks could be compared at the end. What is compared here is every operation, with
results that are optional where a run need not end, so the relation is lifted to such results once.
An interaction is a composition of operations, and a composition of related operations is related.
There is no induction on the length of a run: the loops go by the machine, and the machine is one.
-/

namespace BasicComputer

/-- Whether a relation between two sinks is kept whenever both take in the same entry. -/
def Sink.Kept {σ τ : Type} [Sink σ] [Sink τ] (R : σ → τ → Prop) : Prop :=
  ∀ a b e, R a b → R (Sink.record a e) (Sink.record b e)

theorem Sink.Kept.recordAll {σ τ : Type} [Sink σ] [Sink τ] {R : σ → τ → Prop} (hR : Kept R) {a : σ}
    {b : τ} (h : R a b) (entries : List Entry) :
    R (Sink.recordAll a entries) (Sink.recordAll b entries) := by
  induction entries generalizing a b with
  | nil => exact h
  | cons e entries ih => exact ih (hR a b e h)

section Related

variable {α β γ δ : Type} {r : α → β → Prop} {r' : γ → δ → Prop} {x : Option α} {y : Option β}

theorem rel_mono {r' : α → β → Prop} (h : Option.Rel r x y) (hr : ∀ a b, r a b → r' a b) :
    Option.Rel r' x y := by
  rcases h with h | -
  · exact .some (hr _ _ h)
  · exact .none

theorem rel_map {f : α → γ} {g : β → δ} (h : Option.Rel r x y)
    (hfg : ∀ a b, r a b → r' (f a) (g b)) : Option.Rel r' (x.map f) (y.map g) := by
  rcases h with h | -
  · exact .some (hfg _ _ h)
  · exact .none

theorem rel_bind {f : α → Option γ} {g : β → Option δ} (h : Option.Rel r x y)
    (hfg : ∀ a b, r a b → Option.Rel r' (f a) (g b)) : Option.Rel r' (x.bind f) (y.bind g) := by
  rcases h with h | -
  · exact hfg _ _ h
  · exact .none

end Related

namespace Simulator

variable {σ τ : Type} [Sink σ] [Sink τ]

/-- The relation between two simulators that are driven side by side. -/
structure Alongside (R : σ → τ → Prop) (s : Simulator σ) (t : Simulator τ) : Prop where
  machine : s.machine = t.machine
  sinks : R s.sink t.sink

variable {R : σ → τ → Prop} {s : Simulator σ} {t : Simulator τ}

namespace Alongside

/-! ## Single operations -/

theorem report (hR : Sink.Kept R) (h : Alongside R s t) (entries : List Entry) :
    Alongside R (s.report entries) (t.report entries) :=
  ⟨h.machine, hR.recordAll h.sinks entries⟩

omit [Sink σ] [Sink τ] in
theorem modify (h : Alongside R s t) (f : Machine → Machine) :
    Alongside R (s.modify f) (t.modify f) :=
  ⟨congrArg f h.machine, h.sinks⟩

theorem reset (hR : Sink.Kept R) (h : Alongside R s t) : Alongside R s.reset t.reset :=
  (h.modify fun _ ↦ Machine.initial).report hR _

theorem assemble (hR : Sink.Kept R) (h : Alongside R s t) (source : String) :
    (s.assemble source).1 = (t.assemble source).1 ∧
      Alongside R (s.assemble source).2 (t.assemble source).2 :=
  ⟨rfl, h.report hR _⟩

theorem load (hR : Sink.Kept R) (h : Alongside R s t) (p : Program) :
    (s.load p).1 = (t.load p).1 ∧ Alongside R (s.load p).2 (t.load p).2 := by
  rw [Simulator.load, Simulator.load]
  rcases Machine.boot p with fault | machine
  · exact ⟨rfl, h.report hR _⟩
  · exact ⟨rfl, (h.modify fun _ ↦ machine).report hR _⟩

/-! ## Stepping -/

theorem advance (hR : Sink.Kept R) (h : Alongside R s t) : Alongside R s.advance t.advance := by
  refine ⟨congrArg Machine.step h.machine, ?_⟩
  rw [sink_advance, sink_advance, ← h.machine]
  exact hR.recordAll h.sinks s.machine.report

theorem iterate_advance (hR : Sink.Kept R) (h : Alongside R s t) (n : Nat) :
    Alongside R (Simulator.advance^[n] s) (Simulator.advance^[n] t) := by
  induction n generalizing s t with
  | zero => exact h
  | succ n ih => exact ih (h.advance hR)

/-- The loops stop on account of the machine, so both go round equally often. -/
theorem finishInstruction (hR : Sink.Kept R) (h : Alongside R s t) :
    Alongside R s.finishInstruction t.finishInstruction := by
  rw [finishInstruction_eq, finishInstruction_eq, h.machine]
  exact h.iterate_advance hR _

theorem runTo (hR : Sink.Kept R) (h : Alongside R s t) (limit : Nat) :
    Alongside R (s.runTo limit) (t.runTo limit) := by
  rw [runTo_eq, runTo_eq, h.machine]
  exact h.iterate_advance hR _

theorem ifLoaded {α : Type} (hR : Sink.Kept R) (h : Alongside R s t)
    {f : Simulator σ → α × Simulator σ} {g : Simulator τ → α × Simulator τ}
    (hfg : (f s).1 = (g t).1 ∧ Alongside R (f s).2 (g t).2) :
    (s.ifLoaded f).1 = (t.ifLoaded g).1 ∧ Alongside R (s.ifLoaded f).2 (t.ifLoaded g).2 := by
  rw [Simulator.ifLoaded, Simulator.ifLoaded, h.machine]
  split
  · exact ⟨congrArg Except.ok hfg.1, hfg.2⟩
  · exact ⟨rfl, h.report hR _⟩

theorem microStep (hR : Sink.Kept R) (h : Alongside R s t) :
    s.microStep.1 = t.microStep.1 ∧ Alongside R s.microStep.2 t.microStep.2 :=
  h.ifLoaded hR ⟨rfl, h.advance hR⟩

theorem macroStep (hR : Sink.Kept R) (h : Alongside R s t) :
    s.macroStep.1 = t.macroStep.1 ∧ Alongside R s.macroStep.2 t.macroStep.2 := by
  refine h.ifLoaded hR ⟨rfl, ?_⟩
  rw [h.machine]
  split
  · exact (h.advance hR).finishInstruction hR
  · exact h.finishInstruction hR

theorem runLimited (hR : Sink.Kept R) (h : Alongside R s t) (max : Nat) :
    (s.runLimited max).1 = (t.runLimited max).1 ∧
      Alongside R (s.runLimited max).2 (t.runLimited max).2 := by
  refine h.ifLoaded hR ?_
  have hrun := h.runTo hR (s.machine.cycles + max)
  rw [← h.machine]
  exact ⟨congrArg (·.cycles - s.machine.cycles) hrun.machine, hrun⟩

/-- A run comes to an end in both simulators or in neither. -/
theorem run (hR : Sink.Kept R) (h : Alongside R s t) :
    Option.Rel (fun x y ↦ x.1 = y.1 ∧ Alongside R x.2 y.2) s.run t.run := by
  have hrun := h.runTo hR Machine.maxCycles
  rw [Simulator.run, Simulator.run, ← h.machine]
  dsimp only
  rw [← hrun.machine]
  split
  · split
    · exact .some ⟨rfl, hrun⟩
    · exact .none
  · exact .some ⟨rfl, h.report hR _⟩

end Alongside

end Simulator

/-! ## What the user sees -/

/-- What the user of a simulator can do with it: have a source text assembled, or ask something of
the machine. -/
inductive Interaction
  | assemble (source : String)
  | request (r : Request)
  deriving DecidableEq, Repr

/-- What the user is answered. -/
inductive Reply
  | assembled (outcome : Except AssemblyError Program) (symbols : SymbolTable)
  | done (result : Except Fault Unit)
  | counted (cycles : Except Fault Nat)

namespace Simulator

variable {σ τ : Type} [Sink σ] [Sink τ]

/-- The answer to a request and the simulator after it; neither comes after a run without end. -/
def respond (s : Simulator σ) : Request → Option (Reply × Simulator σ)
  | .microStep => some (.done s.microStep.1, s.microStep.2)
  | .macroStep => some (.done s.macroStep.1, s.macroStep.2)
  | .run => s.run.map fun x ↦ (.counted x.1, x.2)
  | .runLimited max => some (.counted (s.runLimited max).1, (s.runLimited max).2)
  | .load p => some (.done (s.load p).1, (s.load p).2)
  | .setInput bytes => some (.done (.ok ()), s.modify (·.setInput bytes))
  | .pushInput b => some (.done (.ok ()), s.modify (·.pushInput b))
  | .clearInput => some (.done (.ok ()), s.modify (·.setInput []))
  | .reset => some (.done (.ok ()), s.reset)
  | .setRegister name n => some (.done (.ok ()), s.modify (·.setRegister name n))
  | .setFlag name b => some (.done (.ok ()), s.modify (·.setFlag name b))

/-- The answer to an interaction and the simulator after it. -/
def interact (s : Simulator σ) : Interaction → Option (Reply × Simulator σ)
  | .assemble source =>
    some (.assembled (s.assemble source).1 (BasicComputer.assemble source).symbols,
      (s.assemble source).2)
  | .request r => s.respond r

/-- Everything that the user sees of interactions, one after the other: each answer, and the machine
it leaves behind. The simulator at the end comes with it. -/
def observe (s : Simulator σ) : List Interaction → Option (List (Reply × Machine) × Simulator σ)
  | [] => some ([], s)
  | i :: rest =>
    (s.interact i).bind fun x ↦
      (x.2.observe rest).map fun y ↦ ((x.1, x.2.machine) :: y.1, y.2)

variable {R : σ → τ → Prop} {s : Simulator σ} {t : Simulator τ}

namespace Alongside

theorem respond (hR : Sink.Kept R) (h : Alongside R s t) (r : Request) :
    Option.Rel (fun x y ↦ x.1 = y.1 ∧ Alongside R x.2 y.2) (s.respond r) (t.respond r) := by
  rcases r with _ | _ | _ | max | bytes | b | _ | p | _ | ⟨name, n⟩ | ⟨name, b⟩
  · obtain ⟨hresult, hnext⟩ := h.microStep hR
    exact .some ⟨congrArg Reply.done hresult, hnext⟩
  · obtain ⟨hresult, hnext⟩ := h.macroStep hR
    exact .some ⟨congrArg Reply.done hresult, hnext⟩
  · refine rel_map (h.run hR) ?_
    rintro x y ⟨hresult, hnext⟩
    exact ⟨congrArg Reply.counted hresult, hnext⟩
  · obtain ⟨hresult, hnext⟩ := h.runLimited hR max
    exact .some ⟨congrArg Reply.counted hresult, hnext⟩
  · exact .some ⟨rfl, h.modify (·.setInput bytes)⟩
  · exact .some ⟨rfl, h.modify (·.pushInput b)⟩
  · exact .some ⟨rfl, h.modify (·.setInput [])⟩
  · obtain ⟨hresult, hnext⟩ := h.load hR p
    exact .some ⟨congrArg Reply.done hresult, hnext⟩
  · exact .some ⟨rfl, h.reset hR⟩
  · exact .some ⟨rfl, h.modify (·.setRegister name n)⟩
  · exact .some ⟨rfl, h.modify (·.setFlag name b)⟩

theorem interact (hR : Sink.Kept R) (h : Alongside R s t) (i : Interaction) :
    Option.Rel (fun x y ↦ x.1 = y.1 ∧ Alongside R x.2 y.2) (s.interact i) (t.interact i) := by
  rcases i with source | r
  · obtain ⟨houtcome, hnext⟩ := h.assemble hR source
    exact .some ⟨congrArg (Reply.assembled · _) houtcome, hnext⟩
  · exact h.respond hR r

/-- Interactions that do not come to an end beside one sink do not beside the other. Those that do
show the same. -/
theorem observe (hR : Sink.Kept R) (h : Alongside R s t) (is : List Interaction) :
    Option.Rel (fun x y ↦ x.1 = y.1 ∧ Alongside R x.2 y.2) (s.observe is) (t.observe is) := by
  induction is generalizing s t with
  | nil => exact .some ⟨rfl, h⟩
  | cons i rest ih =>
    refine rel_bind (h.interact hR i) ?_
    rintro x y ⟨hreply, hnext⟩
    refine rel_map (ih hnext) ?_
    rintro x' y' ⟨hseen, hend⟩
    refine ⟨?_, hend⟩
    rw [hreply, hnext.machine, hseen]

end Alongside

end Simulator

/-! ## A log beside a channel -/

/-- What has come in at a log and at a channel since they were `log` and `channel`. -/
def EventLog.Echoes (log : EventLog) (channel : Channel) (later : EventLog) (sent : Channel) :
    Prop :=
  ∃ reported : List Entry,
    later.entries.toList = log.entries.toList ++ reported ∧
    later.records.toList = log.records.toList ++ reported.map Entry.record ∧
    sent.records.toList = channel.records.toList ++ reported.map Entry.record

theorem EventLog.echoes_self (log : EventLog) (channel : Channel) :
    log.Echoes channel log channel := by
  exact ⟨[], by simp⟩

theorem EventLog.kept_echoes (log : EventLog) (channel : Channel) :
    Sink.Kept (log.Echoes channel) := by
  rintro later sent e ⟨reported, hentries, hrecords, hsent⟩
  refine ⟨reported ++ [e], ?_, ?_, ?_⟩
  · calc (later.entries.push e).toList = later.entries.toList ++ [e] := Array.toList_push
      _ = log.entries.toList ++ (reported ++ [e]) := by rw [hentries, List.append_assoc]
  · calc (later.records.push e.record).toList = later.records.toList ++ [e.record] :=
        Array.toList_push
      _ = log.records.toList ++ (reported ++ [e]).map Entry.record := by
        rw [hrecords, List.append_assoc, List.map_append, List.map_singleton]
  · calc (sent.records.push e.record).toList = sent.records.toList ++ [e.record] :=
        Array.toList_push
      _ = channel.records.toList ++ (reported ++ [e]).map Entry.record := by
        rw [hsent, List.append_assoc, List.map_append, List.map_singleton]

end BasicComputer
