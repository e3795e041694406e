import Netlist.Program
import Netlist.Proofs.SharedChannel
import Netlist.Proofs.WellFormed

/-!
# Replies

A run on a file that can be read prints each fault of the load when it arises, then the summary if there is
a root network, and its exit code tells whether there is one. The subscriber writes elsewhere, so `-v`
changes neither. The choice of the handler changes how faults are shown and nothing else.
-/

namespace Netlist

/-! ### Summaries -/

namespace Network

variable {n : Network} {lines : List String}

/-- The first line, for a network of the kind that loads answer with. -/
inductive Titled (n : Network) : String → Prop where
  | sop (type : n.type = .netlist) (function : n.function = .sop) :
      Titled n ("network \"" ++ n.name ++ "\" (Netlist, Sop)")
  | blackBox (type : n.type = .netlist) (function : n.function = .blackBox) :
      Titled n ("network \"" ++ n.name ++ "\" (Netlist, BlackBox)")

inductive Located (n : Network) : List String → Prop where
  | unknown (spec : n.spec = none) : Located n []
  | file {file : String} (spec : n.spec = some file) : Located n ["  read from: " ++ file]

inductive ShowsExdc (n : Network) : List String → Prop where
  | absent (exdc : n.exdc = none) : ShowsExdc n []
  | attached {e : Network} (exdc : n.exdc = some e) :
      ShowsExdc n ["  exdc: \"" ++ e.name ++ "\" with " ++ toString e.graph.objects.size ++ " objects"]

inductive ShowsHierarchy (n : Network) : List String → Prop where
  | alone (hierarchy : n.hierarchy = none) : ShowsHierarchy n []
  | others {rest : Design Network} (hierarchy : n.hierarchy = some rest) :
      ShowsHierarchy n (("  submodules: " ++ toString rest.modules.length) ::
        rest.modules.map fun m => "    " ++ m.name)

/-- What a summary has to say, line by line. The numbers are those of the objects. -/
inductive SummarizedBy (n : Network) : List String → Prop where
  | lines {title : String} {location exdc hierarchy : List String} (titled : n.Titled title)
      (located : n.Located location) (showsExdc : n.ShowsExdc exdc)
      (showsHierarchy : n.ShowsHierarchy hierarchy) :
      SummarizedBy n ([title] ++ location ++
        ["  input: " ++ toString (n.graph.count .input), "  output: " ++ toString (n.graph.count .output),
          "  net: " ++ toString (n.graph.count .net), "  node: " ++ toString (n.graph.count .node),
          "  latch: " ++ toString (n.graph.count .latch), "  box: " ++ toString (n.graph.count .box)] ++
        exdc ++ hierarchy ++ n.properties.map fun property => "  ltl: " ++ property)

/-- The network is of the kind that loads answer with, and its counters are right. -/
structure Counted (n : Network) : Prop where
  type : n.type = .netlist
  function : n.function = .sop ∨ n.function = .blackBox
  objects : n.graph.Counted
  exdc : ∀ e ∈ n.exdc, e.graph.Counted

theorem titled_iff (counted : n.Counted) {title : String} :
    n.Titled title ↔ title = s!"network {Text.inQuotes n.name} ({n.type.name}, {n.function.name})" := by
  have written (ending : String)
      (names : ending = "\"" ++ " (" ++ "Netlist" ++ ", " ++ n.function.name ++ ")") :
      s!"network {Text.inQuotes n.name} ({n.type.name}, {n.function.name})" =
        "network \"" ++ n.name ++ ending := by
    have opening : "network \"" = "network " ++ "\"" := by decide
    rw [counted.type, names, opening]
    change "network " ++ ("\"" ++ n.name ++ "\"") ++ " (" ++ "Netlist" ++ ", " ++ n.function.name ++ ")" = _
    simp only [String.append_assoc]
  have sop (function : n.function = .sop) := written "\" (Netlist, Sop)" (by rw [function]; decide)
  have blackBox (function : n.function = .blackBox) :=
    written "\" (Netlist, BlackBox)" (by rw [function]; decide)
  constructor
  · rintro (⟨-, function⟩ | ⟨-, function⟩)
    · exact (sop function).symm
    · exact (blackBox function).symm
  · rintro rfl
    rcases counted.function with function | function
    · rw [sop function]
      exact .sop counted.type function
    · rw [blackBox function]
      exact .blackBox counted.type function

theorem located_iff {location : List String} :
    n.Located location ↔ location = (n.spec.map fun file => s!"  read from: {file}").toList := by
  constructor
  · rintro (spec | spec) <;> rw [spec] <;> rfl
  · rintro rfl
    cases spec : n.spec with
    | none => exact .unknown spec
    | some file => exact .file spec

theorem showsExdc_iff (counted : n.Counted) {exdc : List String} : n.ShowsExdc exdc ↔
    exdc = (n.exdc.map fun e => s!"  exdc: {Text.inQuotes e.name} with {e.graph.live} objects").toList := by
  have written {e : Network} (attached : n.exdc = some e) :
      s!"  exdc: {Text.inQuotes e.name} with {e.graph.live} objects" =
        "  exdc: \"" ++ e.name ++ "\" with " ++ toString e.graph.objects.size ++ " objects" := by
    have opening : "  exdc: \"" = "  exdc: " ++ "\"" := by decide
    have middle : "\" with " = "\"" ++ " with " := by decide
    rw [(counted.exdc e attached).live, opening, middle]
    change "  exdc: " ++ ("\"" ++ e.name ++ "\"") ++ " with " ++ toString e.graph.objects.size ++ " objects" = _
    simp only [String.append_assoc]
  constructor
  · rintro (absent | attached)
    · rw [absent]
      rfl
    · rw [attached, Option.map_some, written attached]
      rfl
  · rintro rfl
    cases attached : n.exdc with
    | none => exact .absent attached
    | some e =>
      rw [Option.map_some, written attached]
      exact .attached attached

theorem showsHierarchy_iff {hierarchy : List String} :
    n.ShowsHierarchy hierarchy ↔ hierarchy = hierarchySummary n.hierarchy := by
  constructor
  · rintro (alone | others)
    · rw [alone]
      rfl
    · rw [others]
      rfl
  · rintro rfl
    cases rest : n.hierarchy with
    | none => exact .alone rest
    | some rest' => exact .others rest

theorem countLines_eq (counted : n.Counted) :
    (Kind.all.map fun kind => s!"  {kind}: {n.graph.tally.of kind}") =
      ["  input: " ++ toString (n.graph.count .input), "  output: " ++ toString (n.graph.count .output),
        "  net: " ++ toString (n.graph.count .net), "  node: " ++ toString (n.graph.count .node),
        "  latch: " ++ toString (n.graph.count .latch), "  box: " ++ toString (n.graph.count .box)] := by
  have written {kind : Kind} {label : String} (named : label = "  " ++ kind.name ++ ": ") :
      s!"  {kind}: {n.graph.tally.of kind}" = label ++ toString (n.graph.count kind) := by
    rw [counted.objects.tally, named]
    rfl
  simp only [Kind.all, List.map_cons, List.map_nil, List.cons.injEq, and_true]
  exact ⟨written (by decide), written (by decide), written (by decide), written (by decide),
    written (by decide), written (by decide)⟩

theorem summarizedBy_iff (counted : n.Counted) : n.SummarizedBy lines ↔ lines = n.summary := by
  rw [summary, countLines_eq counted]
  constructor
  · rintro ⟨titled, located, showsExdc, showsHierarchy⟩
    rw [titled_iff counted] at titled
    rw [located_iff] at located
    rw [showsExdc_iff counted] at showsExdc
    rw [showsHierarchy_iff] at showsHierarchy
    rw [titled, located, showsExdc, showsHierarchy]
    rfl
  · rintro rfl
    exact .lines ((titled_iff counted).mpr rfl) (located_iff.mpr rfl) ((showsExdc_iff counted).mpr rfl)
      (showsHierarchy_iff.mpr rfl)

end Network

/-- The root that a load answers with passed its check, and so did its don't-care circuit. -/
theorem Blif.load_counted {text : String} {file : Option String} {id : DesignId} {n : Network}
    (loaded : (Blif.load text file id).outcome = .ok n) : n.Counted := by
  obtain ⟨c, _, read, -, consistent, -⟩ := load_eq_ok.mp loaded
  obtain ⟨c', read', circuits⟩ := load_circuits loaded
  obtain rfl : c = c' := Except.ok.inj (read.symm.trans read')
  obtain ⟨own, companion⟩ := circuits n List.mem_cons_self
  have counted {k : Circuit} (member : k ∈ c.circuits) : k.graph.Counted :=
    (Graph.problems_eq_nil_iff.mp (consistent k member)).counted
  obtain ⟨_, _, definitions, -, rfl⟩ := ofText_eq_ok.mp read
  obtain ⟨d, -, same⟩ := List.mem_map.mp own
  have type : n.toCircuit.type = .netlist := by rw [← same]; rfl
  have function : n.toCircuit.function = .sop ∨ n.toCircuit.function = .blackBox := by
    rw [← same, Definition.built]
    cases d.model.blackbox
    · exact .inl rfl
    · exact .inr rfl
  exact ⟨type, function, counted own, fun e attached => counted (companion e attached)⟩

namespace CommandLine

open Fault (Process Step Behavior)

/-! ### Faults -/

/-- How a fault is to be shown. -/
def Given.rendering (g : Given) (message : String) : String :=
  if defaultHandler ∈ g.flags then "abc-mini error: " ++ message ++ "\n"
  else "ABC MINI ERROR:\n" ++ message ++ "\n"

def Given.shown (g : Given) (messages : List String) : String := String.join (messages.map g.rendering)

/-- What a process does when these arguments are given, from the installation of the handler on. -/
def Given.steps (g : Given) (text : String) : List (Step (String → String)) :=
  (if defaultHandler ∈ g.flags then [] else [.change (.install banner)]) ++
    [.load text (some g.argument) ⟨0⟩]

/-- The subscriber writes nothing to standard output. -/
def Platform.Quiet {m : Type → Type} (p : Platform m) : Prop :=
  ∀ write ∈ p.subscriber, ∀ past e, (write past e).output = ""

namespace Given

variable (g : Given)

/-- The handler of the run stands alone, since the built-in one gives way to the first that is installed. -/
theorem channel_handlers :
    g.channel.handlers = [if defaultHandler ∈ g.flags then .builtin else .custom banner] := by
  unfold channel
  split <;> rfl

/-- So each fault is shown once. -/
theorem printed_deliver (messages : List String) :
    Fault.printed id (g.channel.deliver messages) = g.shown messages := by
  have calls : g.channel.deliver messages =
      messages.map (⟨if defaultHandler ∈ g.flags then .builtin else .custom banner, ·⟩) := by
    simp only [Fault.Channel.deliver, channel_handlers, List.map_singleton]
    exact List.map_eq_flatMap.symm
  rw [calls, Fault.printed, List.map_map, shown]
  congr 2
  funext message
  by_cases builtin : defaultHandler ∈ g.flags
  · simp only [rendering, if_pos builtin]
    rfl
  · simp only [rendering, if_neg builtin]
    rfl

theorem shown_append (earlier later : List String) :
    g.shown (earlier ++ later) = g.shown earlier ++ g.shown later := by
  simp [shown]

variable {g} in
theorem shown_congr {g' : Given} (handler : defaultHandler ∈ g'.flags ↔ defaultHandler ∈ g.flags) :
    g'.shown = g.shown := by
  unfold shown rendering
  simp only [handler]

/-- A process that is started with these arguments ends with the calls that the channel prescribes. -/
theorem run_steps (b : Behavior (String → String)) (text : String) :
    (({} : Process (String → String)).run b (g.steps text)).calls =
      g.channel.deliver (faults (Blif.load text (some g.argument) ⟨0⟩).events) := by
  have started : ({} : Process (String → String)).run b (g.steps text) =
      (⟨g.channel, []⟩ : Process (String → String)).step b (.load text (some g.argument) ⟨0⟩) := by
    unfold steps channel
    split <;> rfl
  rw [started, Process.step_calls]
  rfl

end Given

/-! ### Runs -/

def exitCode : Except Blif.LoadError Network → Nat
  | .ok _ => 0
  | .error _ => 1

theorem exitCode_eq_zero {outcome : Except Blif.LoadError Network} :
    exitCode outcome = 0 ↔ ∃ n, outcome = .ok n := by
  cases outcome <;> simp [exitCode]

theorem exitCode_eq_one {outcome : Except Blif.LoadError Network} :
    exitCode outcome = 1 ↔ ∃ e, outcome = .error e := by
  cases outcome <;> simp [exitCode]

/-- What is printed behind the faults. -/
def conclusion : Except Blif.LoadError Network → String
  | .ok n => String.join (n.summary.map (· ++ "\n"))
  | .error _ => ""

variable {m : Type → Type} {p : Platform m} {g : Given} {text : String}

namespace Platform

theorem started_output : (p.started g).output = "" := by
  unfold started
  split <;> rfl

theorem logged_output (quiet : p.Quiet) (past : List Event) (e : Event) :
    (p.logged g past e).output = "" := by
  unfold logged
  split
  · split
    · next write subscribed => exact quiet write subscribed past e
    · rfl
  · rfl

/-- Of the events, standard output shows the faults. -/
theorem narrated_output (quiet : p.Quiet) (past events : List Event) :
    (p.narrated g past events).output = g.shown (faults events) := by
  induction events generalizing past with
  | nil => rfl
  | cons e events ih =>
    have written : (p.narrated g past (e :: events)).output = (p.logged g past e).output ++
        Fault.printed id (g.channel.deliver e.fault?.toList) ++
          (p.narrated g (past ++ [e]) events).output := rfl
    have told : faults (e :: events) = e.fault?.toList ++ faults events := by
      cases fault : e.fault? <;> simp [faults, fault]
    rw [written, logged_output quiet, String.empty_append, g.printed_deliver, ih, told, g.shown_append]

theorem reply_output (quiet : p.Quiet) (text : String) : (p.reply g text).output =
    g.shown (faults (Blif.load text (some g.argument) ⟨0⟩).events) ++
      conclusion (Blif.load text (some g.argument) ⟨0⟩).outcome := by
  have written (events : List Event) :
      (p.started g ++ p.narrated g [] events).output = g.shown (faults events) := by
    have both : (p.started g ++ p.narrated g [] events).output =
        (p.started g).output ++ (p.narrated g [] events).output := rfl
    rw [both, started_output, narrated_output quiet, String.empty_append]
  dsimp only [reply]
  cases (Blif.load text (some g.argument) ⟨0⟩).outcome with
  | ok n => exact congrArg (· ++ _) (written _)
  | error e => exact (written _).trans String.append_empty.symm

theorem reply_code (text : String) :
    (p.reply g text).code = exitCode (Blif.load text (some g.argument) ⟨0⟩).outcome := by
  dsimp only [reply]
  cases (Blif.load text (some g.argument) ⟨0⟩).outcome <;> rfl

end Platform

variable [Monad m] [LawfulMonad m] {args : List String}

theorem run_eq (accepted : p.readArguments usage args = .ok g)
    (readable : p.readFile g.argument = pure (.ok text)) : run p args = pure (p.reply g text) := by
  simp [run, accepted, readable]

/-- A run on a file that can be read ends with the exit code 0 if the load has a root and with 1 if it fails,
never because a precondition is broken. It prints every fault once, in the order in which the faults arise
and by the one handler that a process with these arguments has on its channel, then the summary of the root
or nothing. The last fault of a failed load is its error. Another run on the same file prints the same if
it has the same handler, whatever else is asked for, and in any case it has the same exit code and the same
conclusion behind the faults. -/
theorem run_replies (accepted : p.readArguments usage args = .ok g)
    (readable : p.readFile g.argument = pure (.ok text)) (quiet : p.Quiet) :
    ∃ reply loaded conclusion, run p args = pure reply ∧
      Blif.load text (some g.argument) ⟨0⟩ = loaded ∧
      (reply.code = 0 ↔ ∃ n, loaded.outcome = .ok n) ∧
      (reply.code = 1 ↔ ∃ e, loaded.outcome = .error e) ∧
      (∀ b, Fault.printed id (({} : Process (String → String)).run b (g.steps text)).calls =
        g.shown (faults loaded.events)) ∧
      reply.output = g.shown (faults loaded.events) ++ conclusion ∧
      (∀ n, loaded.outcome = .ok n → ∃ lines, n.SummarizedBy lines ∧
        conclusion = String.join (lines.map fun line => line ++ "\n")) ∧
      (∀ e, loaded.outcome = .error e → conclusion = "" ∧ (∀ v, e ≠ .violated v) ∧ ∃ earlier,
        faults loaded.events = earlier ++ [e.message] ∧
        reply.output = g.shown earlier ++ g.rendering e.message) ∧
      ∀ args' g', p.readArguments usage args' = .ok g' → g'.argument = g.argument → ∃ reply',
        run p args' = pure reply' ∧ reply'.code = reply.code ∧
        ((defaultHandler ∈ g'.flags ↔ defaultHandler ∈ g.flags) → reply'.output = reply.output) ∧
        reply'.output = g'.shown (faults loaded.events) ++ conclusion := by
  refine ⟨p.reply g text, _, _, run_eq accepted readable, rfl, ?_, ?_, ?_, Platform.reply_output quiet text,
    ?_, ?_, ?_⟩
  · rw [Platform.reply_code, exitCode_eq_zero]
  · rw [Platform.reply_code, exitCode_eq_one]
  · intro b
    rw [g.run_steps, g.printed_deliver]
  · intro n loaded
    rw [loaded]
    exact ⟨n.summary, (n.summarizedBy_iff (Blif.load_counted loaded)).mpr rfl, rfl⟩
  · intro e failed
    have last := Blif.load_faults_eq text (some g.argument) ⟨0⟩
    rw [Blif.faults_ending failed] at last
    have alone : g.shown [e.message] = g.rendering e.message := by simp [Given.shown]
    refine ⟨by rw [failed]; rfl, Blif.load_error_ne failed, _, last, ?_⟩
    rw [Platform.reply_output quiet, failed, last, g.shown_append, alone, conclusion, String.append_empty]
  · intro args' g' accepted' same
    rw [← same] at readable
    refine ⟨p.reply g' text, run_eq accepted' readable, ?_, ?_, ?_⟩
    · rw [Platform.reply_code, Platform.reply_code, same]
    · intro handler
      rw [Platform.reply_output quiet, Platform.reply_output quiet, same, Given.shown_congr handler]
    · rw [Platform.reply_output quiet, same]

/-- The first of two top-level modules has a don't-care section, a submodule and a property. -/
def warned : String :=
  ".model top\n.inputs a\n.outputs y\n.subckt leaf x=a z=y\n.ltlformula \"G a\"\n.exdc\n.names y\n1\n.end\n" ++
  ".model leaf\n.inputs x\n.outputs z\n.names x z\n1 1\n.end\n.model spare\n.end\n"

/-- The faults are shown by either handler, and behind them the summary of a root that was found. -/
theorem run_replies_warned :
    let p : Platform Id := Program.platform fun file =>
      .ok (if file = "cyclic.blif" then Blif.cycleBelowFirstTop else warned)
    let warning := "warning: the design has 2 root-level modules; " ++
      "the first one (\"top\") will be used and 1 ignored"
    let summary := "network \"top\" (Netlist, Sop)\n  read from: in.blif\n  input: 1\n  output: 1\n" ++
      "  net: 2\n  node: 0\n  latch: 0\n  box: 1\n  exdc: \"EXDC\" with 5 objects\n" ++
      "  submodules: 2\n    leaf\n    spare\n  ltl: G a\n"
    let error := "the hierarchy of network \"top\" is cyclic: " ++
      "model \"a\" is part of an instantiation cycle"
    ∃ reply reply' failed, run p ["-v", "in.blif"] = reply ∧
      run p ["--default-handler", "in.blif"] = reply' ∧
      run p ["cyclic.blif"] = failed ∧ reply.code = 0 ∧ reply'.code = 0 ∧ failed.code = 1 ∧
      reply.output = "ABC MINI ERROR:\n" ++ warning ++ "\n" ++ summary ∧
      reply'.output = "abc-mini error: " ++ warning ++ "\n" ++ summary ∧
      failed.output = "ABC MINI ERROR:\n" ++ warning ++ "\nABC MINI ERROR:\n" ++ error ++ "\n" := by
  intro p warning summary error
  have quiet : p.Quiet := by
    rintro write ⟨⟩ past e
    rfl
  obtain ⟨n, loaded, summarized⟩ := Outcome.exists_ok_of_any
    (x := (Blif.load warned (some "in.blif") ⟨0⟩).outcome)
    (p := fun n => String.join (n.summary.map fun line => line ++ "\n") = summary) (by decide +kernel)
  have told : faults (Blif.load warned (some "in.blif") ⟨0⟩).events = [warning] := by decide +kernel
  obtain ⟨reply, _, conclusion, ended, rfl, code, -, -, output, concludes, -, others⟩ :=
    @run_replies Id p ⟨[verbose], "in.blif"⟩ warned _ _ ["-v", "in.blif"] rfl rfl quiet
  obtain ⟨reply', ended', code', -, output'⟩ :=
    others ["--default-handler", "in.blif"] ⟨[defaultHandler], "in.blif"⟩ rfl rfl
  obtain ⟨lines, summarizes, rfl⟩ := concludes n loaded
  rw [told, (n.summarizedBy_iff (Blif.load_counted loaded)).mp summarizes,
    of_decide_eq_true summarized] at output output'
  have failure : (Blif.load Blif.cycleBelowFirstTop (some "cyclic.blif") ⟨0⟩).outcome =
      .error (.cyclic ⟨"top", "a"⟩) := Outcome.error?_eq_some.mp (by decide +kernel)
  have reported : faults (Blif.load Blif.cycleBelowFirstTop (some "cyclic.blif") ⟨0⟩).events =
      [warning, error] := by decide +kernel
  obtain ⟨failed, _, _, ended'', rfl, -, code'', -, output'', -, nothing, -⟩ :=
    @run_replies Id p ⟨[], "cyclic.blif"⟩ Blif.cycleBelowFirstTop _ _ ["cyclic.blif"] rfl rfl quiet
  rw [reported, (nothing _ failure).1, String.append_empty] at output''
  have code : reply.code = 0 := code.mpr ⟨n, loaded⟩
  exact ⟨reply, reply', failed, ended, ended', ended'', code, code'.trans code, code''.mpr ⟨_, failure⟩,
    output.trans (by decide +kernel), output'.trans (by decide +kernel), output''.trans (by decide +kernel)⟩

end CommandLine

end Netlist
