import LS8.Proofs.CommandLine.Outcomes
import LS8.Proofs.Listing.Rows

/-! # The command line: exit codes

What the exit code of an invocation says. Over a standard output that takes every line it is 1 if
the arguments ask for nothing that can be done, 2 if a program cannot be loaded, 3 if its machine
faults, and 0 otherwise (`Contract`). Over one that takes no line, a run succeeds if it halts
without trying to print, and a listing if it has no rows.

* `contract_of_ends`: the contract, one way of an invocation after the other.
* `exit_codes`: all of it. -/

namespace LS8.CommandLine

open LS8.Text Session

variable {files : Image.Files} {arguments : List ByteString} {image : List UInt8} {trace : Bool}
  {o : Outcome}

/-! ### The contract -/

/-- What an outcome promises if standard output takes every line. -/
structure Contract (files : Image.Files) (arguments : List ByteString) (o : Outcome) : Prop where
  usage : o.exitCode = 1 ↔ ∃ e, parse arguments = .error e
  load : o.exitCode = 2 ↔ ∃ path e, Names arguments path ∧ Image.load files path = .error e
  fault : o.exitCode = 3 ↔ ∃ image trace c t,
    Runs files arguments image trace ∧ (started image accepting).RunsTo (.fault c) t
  known : o.exitCode ∈ [0, 1, 2, 3]
  /-- A program that cannot be loaded is reported before any machine is ready. -/
  unloaded : ∀ path e, Names arguments path → Image.load files path = .error e →
    launch files accepting arguments = .done o ∧ o.stdout = [] ∧ o.stderr = errorLine e.message
  /-- A run prints the lines of the PRNs that retire, and a fault is reported last. -/
  printed : ∀ image trace, Runs files arguments image trace →
    ∃ n, (started image accepting).StopsAt n ∧
      o.stdout = (List.range n).flatMap (fun k => ((started image accepting).after k).line) ∧
      ∀ c t, (started image accepting).RunsTo (.fault c) t → o.stderr =
        traceBytes trace ((started image accepting).eventsUntil (n + 1)) ++ errorLine c.message

/-! ### Outcomes over before a run -/

theorem exitCode_usageFailure (e : UsageError) : (usageFailure accepting e).exitCode = 1 := by
  cases e <;> rfl

theorem writeLines_of_accepts {out : StandardOutput} (h : out.accepts = true)
    (lines : List (List Char)) : (out.writeLines lines).1 = true := by
  induction lines generalizing out with
  | nil => rfl
  | cons line lines ih =>
    rw [StandardOutput.writeLines, StandardOutput.writeLine, if_pos h]
    exact ih h

theorem exitCode_disasm_accepting (image : List UInt8) :
    (disasm image accepting).exitCode = 0 := by
  have hwritten : (accepting.writeLines ((listing image).map Row.line)).1 = true :=
    writeLines_of_accepts rfl _
  unfold disasm
  split
  · rfl
  · next hrefused =>
    rw [hrefused] at hwritten
    cases hwritten

theorem exitCode_disasm_refusing (h : image.length ≤ 256) :
    (disasm image refusing).exitCode = if image = [] then 0 else 3 := by
  have hbytes : (listing image).flatMap Row.bytes = image := flatMap_bytes_sweep (by omega)
  cases hrows : listing image with
  | nil =>
    rw [hrows] at hbytes
    rw [disasm, hrows, ← hbytes]
    rfl
  | cons r rows =>
    have hne : image ≠ [] := by
      rintro rfl
      rw [listing, sweep_nil] at hrows
      cases hrows
    rw [disasm, hrows, if_neg hne]
    rfl

/-! ### Runs -/

section Outcome
variable {out : StandardOutput} {n : ℕ}

theorem outcomeOf_of_halted (hstuck : ((started image out).after (n + 1)).port.stuck = false)
    (ho : ((started image out).after n).step.1 = .halted) :
    outcomeOf image trace out n =
      ⟨0, ((started image out).after (n + 1)).port.written.toList,
        traceBytes trace ((started image out).eventsUntil (n + 1))⟩ := by
  simp only [outcomeOf, ho, RunOutcome.ofLast, runOutcome, hstuck]
  rfl

theorem outcomeOf_of_fault {c : Fault}
    (hstuck : ((started image out).after (n + 1)).port.stuck = false)
    (ho : ((started image out).after n).step.1 = .fault c) :
    outcomeOf image trace out n =
      ⟨3, ((started image out).after (n + 1)).port.written.toList,
        traceBytes trace ((started image out).eventsUntil (n + 1)) ++ errorLine c.message⟩ := by
  simp only [outcomeOf, ho, RunOutcome.ofLast, runOutcome, hstuck]
  rfl

theorem exitCode_outcomeOf_of_stuck
    (hstuck : ((started image out).after (n + 1)).port.stuck = true) :
    (outcomeOf image trace out n).exitCode = 3 := by
  simp only [outcomeOf, runOutcome, hstuck]
  rfl

end Outcome

theorem stuck_after_accepting (image : List UInt8) (n : ℕ) :
    ((started image accepting).after n).port.stuck = false := by
  have hstuck := (standardOutput_after (started image accepting) n).2.2
  simpa [started, accepting] using hstuck

theorem written_after_accepting {n : ℕ} (hn : (started image accepting).StopsAt n) :
    ((started image accepting).after (n + 1)).port.written.toList =
      (List.range n).flatMap fun k => ((started image accepting).after k).line := by
  have hwritten := (standardOutput_after (started image accepting) (n + 1)).2.1
  rw [List.range_succ, List.flatMap_append, List.flatMap_singleton,
    line_of_ne_retired hn.stops, List.append_nil] at hwritten
  exact hwritten

/-- **A run over a standard output that takes every line** has exit code 3 if the machine faults and
0 otherwise. -/
theorem accepting_run (trace : Bool) {n : ℕ} (hn : (started image accepting).StopsAt n) :
    let o := outcomeOf image trace accepting n
    (o.exitCode = 0 ∨ o.exitCode = 3) ∧
      (o.exitCode = 3 ↔ ∃ c t, (started image accepting).RunsTo (.fault c) t) ∧
      o.stdout = (List.range n).flatMap (fun k => ((started image accepting).after k).line) ∧
      ∀ c t, (started image accepting).RunsTo (.fault c) t → o.stderr =
        traceBytes trace ((started image accepting).eventsUntil (n + 1)) ++
          errorLine c.message := by
  have hruns : ∀ c t, (started image accepting).RunsTo (.fault c) t ↔
      .fault c = RunOutcome.ofLast (n + 1) ((started image accepting).after n).step.1 ∧
        t = (started image accepting).after (n + 1) :=
    fun c t => runsTo_iff_of_running (running_loaded image) hn
  have hstuck := stuck_after_accepting image (n + 1)
  have hwritten := written_after_accepting hn
  cases hstep : ((started image accepting).after n).step.1 with
  | retired => exact absurd hstep hn.stops
  | halted =>
    have hnone : ∀ c t, ¬ (started image accepting).RunsTo (.fault c) t := fun c t ht => by
      have hout := ((hruns c t).mp ht).1
      rw [hstep] at hout
      cases hout
    rw [outcomeOf_of_halted hstuck hstep]
    refine ⟨.inl rfl, ⟨fun h => ?_, fun ⟨c, t, ht⟩ => absurd ht (hnone c t)⟩, hwritten,
      fun c t ht => absurd ht (hnone c t)⟩
    cases h
  | fault c =>
    have hsome : (started image accepting).RunsTo (.fault c) _ :=
      (hruns c _).mpr ⟨by rw [hstep]; rfl, rfl⟩
    rw [outcomeOf_of_fault hstuck hstep]
    refine ⟨.inr rfl, ⟨fun _ => ⟨c, _, hsome⟩, fun _ => rfl⟩, hwritten, fun c' t ht => ?_⟩
    have hout := ((hruns c' t).mp ht).1
    rw [hstep] at hout
    cases hout
    rfl

/-! ### All ways -/

/-- An outcome with exit code 0, if nothing is run and nothing is wrong, keeps the contract. -/
theorem contract_of_success (hruns : ∀ image trace, ¬ Runs files arguments image trace)
    (hparses : ∀ e, parse arguments ≠ .error e)
    (hloads : ¬ ∃ path e, Names arguments path ∧ Image.load files path = .error e)
    (hcode : o.exitCode = 0) : Contract files arguments o where
  usage := iff_of_false (by simp [hcode]) fun ⟨e, he⟩ => hparses e he
  load := iff_of_false (by simp [hcode]) hloads
  fault := by simp [hcode, hruns]
  known := by simp [hcode]
  unloaded path e h he := absurd ⟨path, e, h, he⟩ hloads
  printed image trace h := absurd h (hruns image trace)

theorem contract_of_ends (ho : Ends files accepting arguments o) : Contract files arguments o := by
  cases way files arguments with
  | usageError h =>
    obtain rfl := (ends_iff_of_done (launch_of_usageError h)).mp ho
    have hcode := exitCode_usageFailure
    exact
      { usage := by simp [hcode, h]
        load := by simp [hcode, Names, h]
        fault := by simp [hcode, Runs, h]
        known := by simp [hcode]
        unloaded := by simp [Names, h]
        printed := by simp [Runs, h] }
  | help h =>
    obtain rfl := (ends_iff_of_done (launch_of_help h)).mp ho
    exact contract_of_success (by simp [Runs, h]) (by simp [h]) (by simp [Names, h]) rfl
  | disasm h =>
    obtain rfl := (ends_iff_of_done (launch_of_lists h)).mp ho
    obtain ⟨path, hparse, hload⟩ := h
    exact contract_of_success (by simp [Runs, hparse]) (by simp [hparse])
      (Names.not_loadError (.inr hparse) hload) (exitCode_disasm_accepting _)
  | @loadError path e h he =>
    have hlaunch : launch files accepting arguments =
        .done (failure exitLoad accepting [] e.message) := launch_of_loadError h he
    obtain rfl := (ends_iff_of_done hlaunch).mp ho
    have hcode : (failure exitLoad accepting [] e.message).exitCode = 2 := rfl
    have hruns : ∀ image trace, ¬ Runs files arguments image trace := by
      intro image trace hruns
      obtain ⟨path', hnames, hload⟩ := hruns.names
      exact hnames.not_loadError hload ⟨path, e, h, he⟩
    exact
      { usage := by simp [hcode, h.ne_error]
        load := ⟨fun _ => ⟨path, e, h, he⟩, fun _ => hcode⟩
        fault := by simp [hcode, hruns]
        known := by simp [hcode]
        unloaded := by
          intro path' e' h' he'
          rw [h.unique h', he] at he'
          obtain rfl := Except.error.inj he'
          exact ⟨hlaunch, rfl, rfl⟩
        printed := fun image trace h' => absurd h' (hruns image trace) }
  | @run image trace h =>
    obtain ⟨n, hn, rfl⟩ := (ends_iff_of_runs h).mp ho
    obtain ⟨hcode, hfault, hstdout, hlast⟩ := accepting_run trace hn
    obtain ⟨path, hnames, hload⟩ := h.names
    have hloads := hnames.not_loadError hload
    have hne : (outcomeOf image trace accepting n).exitCode ≠ 1 ∧
        (outcomeOf image trace accepting n).exitCode ≠ 2 := by
      rcases hcode with hcode | hcode <;> simp [hcode]
    exact
      { usage := iff_of_false hne.1 fun ⟨e, he⟩ => hnames.ne_error e he
        load := iff_of_false hne.2 hloads
        fault := by
          rw [hfault]
          constructor
          · rintro ⟨c, t, ht⟩
            exact ⟨image, trace, c, t, h, ht⟩
          · rintro ⟨image', trace', c, t, h', ht⟩
            rw [(h.unique h').1] at ht
            exact ⟨c, t, ht⟩
        known := by rcases hcode with hcode | hcode <;> simp [hcode]
        unloaded := fun path' e h' he => absurd ⟨path', e, h', he⟩ hloads
        printed := by
          intro image' trace' h'
          obtain ⟨rfl, rfl⟩ := h.unique h'
          exact ⟨n, hn, hstdout, hlast⟩ }

/-! ### A standard output that takes no line -/

/-- **A run over a standard output that takes no line** succeeds if the machine halts without trying
to print, on whatever port. -/
theorem exitCode_of_runs_refusing (h : Runs files arguments image trace)
    (ho : Ends files refusing arguments o) (out : StandardOutput) :
    ((started image out).HaltsQuietly → o.exitCode = 0) ∧
      (¬ (started image out).HaltsQuietly → o.exitCode = 3) := by
  obtain ⟨n, hn, rfl⟩ := (ends_iff_of_runs h).mp ho
  have hport : (started image out).HaltsQuietly ↔ (started image refusing).HaltsQuietly :=
    ⟨fun hq => hq.withPort refusing, fun hq => hq.withPort out⟩
  have hstuck : ((started image refusing).after (n + 1)).port.stuck = true ↔
      ∃ k ≤ n, ((started image refusing).after k).Prints := by
    have hafter := (standardOutput_after (started image refusing) (n + 1)).2.2
    simpa [started, refusing, Nat.lt_succ_iff] using hafter
  rw [hport]
  constructor
  · rintro ⟨m, hm, ho, hquiet⟩
    obtain rfl := hn.eq hm
    have hfree : ((started image refusing).after (n + 1)).port.stuck = false :=
      Bool.eq_false_iff.mpr fun hs => by
        obtain ⟨k, hk, hprints⟩ := hstuck.mp hs
        exact hquiet k hk hprints
    rw [outcomeOf_of_halted hfree ho]
  · intro hquiet
    cases hs : ((started image refusing).after (n + 1)).port.stuck with
    | true => exact exitCode_outcomeOf_of_stuck hs
    | false =>
      cases hstep : ((started image refusing).after n).step.1 with
      | retired => exact absurd hstep hn.stops
      | fault c => rw [outcomeOf_of_fault hs hstep]
      | halted =>
        refine absurd ⟨n, hn, hstep, fun k hk hprints => ?_⟩ hquiet
        rw [hstuck.mpr ⟨k, hk, hprints⟩] at hs
        cases hs

theorem exitCode_of_lists_refusing (h : Lists files arguments image)
    (ho : Ends files refusing arguments o) : o.exitCode = if image = [] then 0 else 3 := by
  obtain rfl := (ends_iff_of_done (launch_of_lists h)).mp ho
  obtain ⟨path, -, hload⟩ := h
  exact exitCode_disasm_refusing (length_le_of_load hload)

/-! ### All of it -/

/-- **The exit codes of invocations.** An invocation ends if and only if its run stops, with one
outcome. If standard output takes every line, the outcome keeps the contract; a program that could
be loaded from its file never fails to be loaded into the machine. If standard output takes no line,
a run exits with 0 if the machine halts without trying to print, and a listing if there is nothing
to list; else they exit with 3. -/
theorem exit_codes (files : Image.Files) (arguments : List ByteString) :
    (∀ out, (∃ o, Ends files out arguments o) ↔ ∀ image trace, Runs files arguments image trace →
      ∃ result t, (started image out).RunsTo result t) ∧
    (∀ out o o', Ends files out arguments o → Ends files out arguments o' → o = o') ∧
    (∀ o, Ends files accepting arguments o → Contract files arguments o) ∧
    (∀ path image, Image.load files path = .ok image →
      (Machine.new.loadProgram image).2 = .ok ()) ∧
    ∀ o, Ends files refusing arguments o →
      (∀ image trace, Runs files arguments image trace → ∀ out,
        ((started image out).HaltsQuietly → o.exitCode = 0) ∧
        (¬ (started image out).HaltsQuietly → o.exitCode = 3)) ∧
      ∀ image, Lists files arguments image → o.exitCode = if image = [] then 0 else 3 := by
  refine ⟨fun out => exists_ends_iff, fun out o o' ho ho' => ho.eq ho',
    fun o ho => contract_of_ends ho, fun path image hload => ?_, fun o ho => ⟨?_, ?_⟩⟩
  · rw [loadProgram_of_load hload]
  · intro image trace h out
    exact exitCode_of_runs_refusing h ho out
  · intro image h
    exact exitCode_of_lists_refusing h ho

/-- The run prints and then faults, or faults over the first line; there is no other program. -/
theorem exit_codes_printAndFault :
    let files := oneFile "p" printAndFault
    let run := [word "run", word "p"]
    let o : Outcome := ⟨3, word "8\n", word "error: unknown opcode 0x00 at pc 0x05\n"⟩
    Ends files accepting run o ∧
      (∃ image trace c t, Runs files run image trace ∧
        (started image accepting).RunsTo (.fault c) t) ∧
      (∀ o', Ends files accepting run o' → o' = o) ∧
      Ends files accepting [word "q"] ⟨2, [], word "error: q: file not found\n"⟩ ∧
      (∃ path e, Names [word "q"] path ∧ Image.load files path = .error e) ∧
      ∃ o', Ends files refusing run o' ∧ o'.exitCode = 3 ∧
        ∀ image trace, Runs files run image trace → ¬ (started image accepting).HaltsQuietly := by
  intro files run o
  have ho : Ends files accepting run o := ⟨3, by decide +kernel⟩
  have hload : Ends files accepting [word "q"] ⟨2, [], word "error: q: file not found\n"⟩ :=
    ⟨0, by decide +kernel⟩
  have hrefused : ∃ o', Ends files refusing run o' ∧ o'.exitCode = 3 :=
    ⟨_, ⟨3, rfl⟩, by decide +kernel⟩
  obtain ⟨-, heq, hcontract, -, hrefusing⟩ := exit_codes files run
  obtain ⟨-, -, hcontract', -⟩ := exit_codes files [word "q"]
  obtain ⟨o', ho', hcode⟩ := hrefused
  refine ⟨ho, (hcontract o ho).fault.mp rfl, fun o' ho' => heq _ o' o ho' ho, hload,
    (hcontract' _ hload).load.mp rfl, o', ho', hcode, fun image trace h hquiet => ?_⟩
  rw [((hrefusing o' ho').1 image trace h accepting).1 hquiet] at hcode
  cases hcode

end LS8.CommandLine
