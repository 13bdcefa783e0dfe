import BasicComputer.Command
import BasicComputer.Proofs.Watching

/-!
# Runs with their trace

A source file can be run with its trace shown or without. The two runs watch the machine through
different sinks, a log with one subscriber and a channel, and the lines that the first shows beyond
the second are the entries its subscriber is handed. Delete them, and the answers are equal: the
exit code, every line of output and every line of diagnostics.

## Two sinks, one machine

That sinks do not matter is shown once, for any two sinks that take in the same entries alike. Both
halves of the result are instances: interactions in any order, beside a log with whatever entries
and subscribers it has, and the one order in which a command assembles, loads and runs.
-/

namespace BasicComputer

namespace Command

/-! ## Answers -/

/-- Whether a line of output is plain text. -/
def OutputLine.isText : OutputLine → Bool
  | text _ => true
  | trace _ => false

/-- An answer without the entries that were shown as they came. -/
def Answer.withoutTrace (a : Answer) : Answer :=
  { a with output := a.output.filter OutputLine.isText }

theorem filter_isText_plain (lines : List String) :
    (plain lines).filter OutputLine.isText = plain lines := by
  rw [plain, List.filter_map]
  exact congrArg _ (List.filter_eq_self.mpr fun _ _ ↦ rfl)

theorem filter_isText_shownSince {σ : Type} [Observer σ] (earlier later : σ) :
    (shownSince earlier later).filter OutputLine.isText = [] := by
  rw [shownSince, List.filter_map, List.map_eq_nil_iff]
  exact List.filter_eq_nil_iff.mpr fun _ _ ↦ Bool.noConfusion

/-- A channel shows nothing. -/
theorem shownSince_channel (earlier later : Channel) : shownSince earlier later = [] := rfl

/-! ## Runs -/

section Runs

variable {σ τ : Type} [Observer σ] [Observer τ] {R : σ → τ → Prop}

/-- Runs beside sinks that pass on the same records differ in their traces alone. -/
theorem withoutTrace_runWith (hR : Sink.Kept R)
    (hrecords : ∀ a b, R a b → Observer.records a = Observer.records b) {a : σ} {b : τ} (h : R a b)
    (verbosity : Nat) (path : String) (options : RunOptions) (source : String) :
    (runWith a verbosity path options source).withoutTrace =
      (runWith b verbosity path options source).withoutTrace := by
  have hstart : Simulator.Alongside R (.withSink a) (.withSink b) := ⟨rfl, h⟩
  obtain ⟨houtcome, hassembled⟩ := hstart.assemble hR source
  rw [runWith, runWith]
  rcases hs : (Simulator.withSink a).assemble source with ⟨outcome, s⟩
  rcases ht : (Simulator.withSink b).assemble source with ⟨outcome', t⟩
  rw [hs, ht] at houtcome hassembled
  obtain rfl : outcome = outcome' := houtcome
  rcases outcome with e | p
  · simp only [Answer.withoutTrace, List.filter_append, filter_isText_plain,
      filter_isText_shownSince, hrecords _ _ hassembled.sinks]
  dsimp only
  obtain ⟨hresult, hloaded⟩ := hassembled.load hR p
  rcases hs : s.load p with ⟨result, loaded⟩
  rcases ht : t.load p with ⟨result', loaded'⟩
  rw [hs, ht] at hresult hloaded
  obtain rfl : result = result' := hresult
  rcases result with fault | ⟨⟩
  · simp only [Answer.withoutTrace, List.filter_append, filter_isText_plain,
      filter_isText_shownSince, hrecords _ _ hloaded.sinks]
  dsimp only
  obtain ⟨hcounted, hend⟩ := (hloaded.modify options.feed).runLimited hR options.maxSteps
  rcases hs : (loaded.modify options.feed).runLimited options.maxSteps with ⟨counted, s⟩
  rcases ht : (loaded'.modify options.feed).runLimited options.maxSteps with ⟨counted', t⟩
  rw [hs, ht] at hcounted hend
  obtain rfl : counted = counted' := hcounted
  have hmachine : s.machine = t.machine := hend.machine
  rcases counted with fault | steps
  · simp only [Answer.withoutTrace, List.filter_append, filter_isText_plain,
      filter_isText_shownSince, hrecords _ _ hend.sinks, hmachine]
  · simp only [Answer.withoutTrace, List.filter_append, filter_isText_plain,
      filter_isText_shownSince, hrecords _ _ hend.sinks, hmachine]

end Runs

/-- A channel has nothing to show, so a run beside it shows no trace. -/
theorem withoutTrace_runWith_channel (channel : Channel) (verbosity : Nat) (path : String)
    (options : RunOptions) (source : String) :
    (runWith channel verbosity path options source).withoutTrace =
      runWith channel verbosity path options source := by
  rw [runWith]
  simp only [shownSince_channel, List.append_nil]
  split
  · simp only [Answer.withoutTrace, filter_isText_plain]
  split
  · simp only [Answer.withoutTrace, filter_isText_plain]
  split
  · simp only [Answer.withoutTrace, List.filter_append, filter_isText_plain]
  · simp only [Answer.withoutTrace, List.filter_append, filter_isText_plain]

/-- Equal but for their traces, the answers to a run with its trace and without. -/
theorem answer_trace (verbosity : Nat) (path : String) (options : RunOptions)
    (source : Except ReadError String) :
    (answer ⟨verbosity, .run path { options with trace := true }⟩ source).withoutTrace =
      answer ⟨verbosity, .run path { options with trace := false }⟩ source := by
  rcases source with e | source
  · rfl
  have hkept : Sink.Kept fun (log : EventLog) (channel : Channel) ↦
      log.records = channel.records := by
    intro log channel e h
    exact congrArg (·.push e.record) h
  have hrun : (runWith EventLog.empty.subscribe.2 verbosity path options source).withoutTrace =
      (runWith Channel.empty verbosity path options source).withoutTrace :=
    withoutTrace_runWith hkept (fun _ _ h ↦ h) rfl verbosity path options source
  calc (runFile verbosity path { options with trace := true } source).withoutTrace
      = (runWith EventLog.empty.subscribe.2 verbosity path options source).withoutTrace := rfl
    _ = (runWith Channel.empty verbosity path options source).withoutTrace := hrun
    _ = runWith Channel.empty verbosity path options source :=
      withoutTrace_runWith_channel Channel.empty verbosity path options source
    _ = runFile verbosity path { options with trace := false } source := rfl

end Command

/-! ## Watching -/

open Command

/-- **Whoever watches changes nothing.** Given the same machine, a simulator that reports to a log,
whatever is in the log and whoever subscribes to it, and one that reports to a channel answer every
list of interactions alike: the same results, symbols and machines, one by one. Both pass on the
same records, which are those of the entries that the log takes in.

So a run that shows its trace and one that does not, of the same file with the same options, have
the same exit code and the same diagnostics, and with the lines of the trace deleted the same
output. -/
theorem watching_changes_nothing :
    (∀ (machine : Machine) (log : EventLog) (channel : Channel) (is : List Interaction),
      Option.Rel
        (fun watched quiet ↦ watched.1 = quiet.1 ∧ watched.2.machine = quiet.2.machine ∧
          log.Echoes channel watched.2.sink quiet.2.sink)
        (Simulator.observe ⟨machine, log⟩ is) (Simulator.observe ⟨machine, channel⟩ is)) ∧
    ∀ (verbosity : Nat) (path : String) (options : RunOptions) (source : Except ReadError String),
      let traced := answer ⟨verbosity, .run path { options with trace := true }⟩ source
      let plain := answer ⟨verbosity, .run path { options with trace := false }⟩ source
      traced.exitCode = plain.exitCode ∧ traced.errors = plain.errors ∧
        traced.output.filter OutputLine.isText = plain.output := by
  constructor
  · intro machine log channel is
    have hstart : Simulator.Alongside (log.Echoes channel) ⟨machine, log⟩ ⟨machine, channel⟩ :=
      ⟨rfl, log.echoes_self channel⟩
    refine rel_mono (hstart.observe (log.kept_echoes channel) is) ?_
    rintro watched quiet ⟨hseen, hend⟩
    exact ⟨hseen, hend.machine, hend.sinks⟩
  · intro verbosity path options source traced plain
    have hequal : traced.withoutTrace = plain := answer_trace verbosity path options source
    rw [← hequal]
    exact ⟨rfl, rfl, rfl⟩

end BasicComputer
