import Netlist.Fault
import Netlist.Proofs.Conservation
import Netlist.Proofs.OrdinaryEvents

/-!
# The faults of a load

Reading and checking report no fault. The choice of the root may warn of several top-level modules,
and a load that fails ends with a fault that bears the message of its error. So the faults can be told
from what the load answers with.
-/

namespace Netlist

theorem faults_append (before after : List Event) :
    faults (before ++ after) = faults before ++ faults after :=
  List.filterMap_append

namespace Traced

variable {ε δ α β : Type}

def Quiet (x : Traced ε α) : Prop := faults x.events = []

theorem Tells.quiet {x : Traced ε α} (tells : x.Tells (·.fault? = none)) : x.Quiet :=
  List.filterMap_eq_nil_iff.mpr tells

theorem Tells.quiet_of_ordinary {x : Traced ε α} (ordinary : x.Tells Event.Ordinary) : x.Quiet :=
  (ordinary.mono fun _ => And.left).quiet

/-- What follows a quiet computation reports all the faults. -/
theorem faults_bind_of_ok {x : Traced ε α} {f : α → Traced ε β} {a : α} (quiet : x.Quiet)
    (ended : x.outcome = .ok a) : faults (x >>= f).events = faults (f a).events := by
  rw [bind_of_ok ended, faults_append, quiet, List.nil_append]

theorem faults_bind_of_error {x : Traced ε α} {f : α → Traced ε β} {e : ε} (quiet : x.Quiet)
    (ended : x.outcome = .error e) : faults (x >>= f).events = [] := by
  rw [bind_of_error ended, quiet]

/-- What a quiet computation follows has reported all the faults. -/
theorem faults_bind_of_quiet {x : Traced ε α} {f : α → Traced ε β} (quiet : ∀ a, (f a).Quiet) :
    faults (x >>= f).events = faults x.events := by
  cases ended : x.outcome with
  | ok a => rw [bind_of_ok ended, faults_append, quiet a, List.append_nil]
  | error e => rw [bind_of_error ended]

end Traced

namespace Blif

open Design Traced Fault

variable {d : Design Network}

def rootWarnings (d : Design Network) : List String :=
  match d.modules.filter fun m => ¬ d.Instantiated m.name with
  | first :: _ :: others => [severalRoots (others.length + 2) first.name]
  | _ => []

theorem rootWarnings_eq {m : Network} (here : d.modules[d.rootPosition]? = some m) :
    rootWarnings d = if 1 < d.roots.length then [severalRoots d.roots.length m.name] else [] := by
  have tops := d.roots_modules
  have same : (d.modules.filter fun m => ¬ d.Instantiated m.name).length = d.roots.length := by
    simpa using (congrArg List.length tops).symm
  unfold rootWarnings
  rw [← same]
  split
  next first _ others listed =>
    obtain ⟨i, rest, positions⟩ : ∃ i rest, d.roots = i :: rest := by
      apply List.exists_cons_of_length_pos
      rw [← same, listed]
      exact Nat.succ_pos _
    have chosen : d.rootPosition = i := by simp [rootPosition, positions]
    rw [listed, positions, ← chosen, List.map_cons, List.map_cons, here] at tops
    obtain rfl := Option.some.inj (List.cons.inj tops).1
    rw [listed]
    simp
  next few =>
    rw [if_neg]
    intro several
    obtain ⟨first, rest, listed⟩ := List.exists_cons_of_length_pos (Nat.zero_lt_of_lt several)
    rw [listed, List.length_cons] at several
    obtain ⟨second, others, rfl⟩ := List.exists_cons_of_length_pos (Nat.lt_of_succ_lt_succ several)
    exact few first second others listed

theorem ofText_quiet (text : String) : (Contents.ofText text).Quiet := by
  have weaken {ε α : Type} {x : Traced ε α} (ordinary : x.Tells Event.Ordinary) :
      x.Tells (·.fault? = none) :=
    ordinary.mono fun _ => And.left
  apply Tells.quiet
  refine .bind (.ofExcept _) fun lines => .bind (.emit rfl) fun _ => ?_
  refine .bind (.ofExcept _) fun models => .bind (.emit rfl) fun _ => ?_
  refine .bind (.mapError (.mapM (fun m => weaken (definition_ordinary models m)) _) _) fun ds => ?_
  exact .bind (.mapM (fun d => weaken (circuit_ordinary d)) _) fun _ => .bind (.emit rfl) fun _ => .pure _

theorem chooseRoot_faults {m : Network} (here : d.modules[d.topLevel.headD 0]? = some m) :
    faults (chooseRoot d).events =
      if 1 < d.topLevel.length then [severalRoots d.topLevel.length m.name] else [] := by
  rw [chooseRoot, moduleName_of_getElem? here]
  split
  · exact faults_bind_of_quiet fun _ => (searchBelow_ordinary _ _).quiet_of_ordinary
  · exact (searchBelow_ordinary _ _).quiet_of_ordinary

/-- Linking warns of several top-level modules once the circuits are found consistent, and reports
nothing else. -/
theorem link_faults (fresh : d.Fresh) (some : d.modules ≠ []) (file : Option String)
    (properties : List String) :
    (∃ e, (link d file properties).outcome = .error (.inconsistent e) ∧
      faults (link d file properties).events = []) ∨
    ((∃ cycle, (link d file properties).outcome = .error (.cyclic cycle)) ∨
      ∃ n, (link d file properties).outcome = .ok n) ∧
      faults (link d file properties).events = rootWarnings d.settled := by
  obtain ⟨m, answer, here, -, linked⟩ := link_outcome fresh some file properties
  cases checked : (checkAll d).outcome with
  | error e =>
    have failed := checked
    rw [checkAll_outcome] at failed
    obtain ⟨e, failed, rfl⟩ := Outcome.mapError_eq_error.mp failed
    rw [failed] at linked
    exact .inl ⟨e, linked, faults_bind_of_error (checkAll_ordinary d).quiet_of_ordinary checked⟩
  | ok _ =>
    refine .inr ⟨?_, ?_⟩
    · rw [← checkAll_outcome, checked] at linked
      cases answer with
      | error cycle => exact .inl ⟨cycle, linked⟩
      | ok _ => exact .inr ⟨_, linked⟩
    · have chosen := chooseRoot_faults (d := d.prepared) here
      rw [link, faults_bind_of_ok (checkAll_ordinary d).quiet_of_ordinary checked,
        faults_bind_of_ok (settleExdc_ordinary d).quiet_of_ordinary (settleExdc_outcome fresh),
        faults_bind_of_quiet fun root => (takeRoot_ordinary _ root file properties).quiet_of_ordinary]
      exact chosen.trans (rootWarnings_eq here).symm

def passedOver (n : Network) : Nat := (n.hierarchy.map (·.topLevel.length)).getD 0

/-- The warning about several top-level modules can be told from the root and its hierarchy. -/
theorem load_rootWarnings {text : String} {file : Option String} {id : DesignId} {n : Network}
    (loaded : (load text file id).outcome = .ok n) {c : Contents}
    (read : (Contents.ofText text).outcome = .ok c) :
    rootWarnings (c.design id (file.getD "")).settled =
      if 0 < passedOver n then [severalRoots (passedOver n + 1) n.name] else [] := by
  obtain ⟨c', d, before, root, after, read', is, divided, position, -, shape⟩ := load_takes loaded
  obtain rfl : c = c' := Except.ok.inj (read.symm.trans read')
  rw [← is]
  have here : d.modules[d.rootPosition]? = some root := by simp [divided, ← position]
  have left : passedOver n = d.roots.length - 1 := by
    rw [passedOver, shape]
    split
    next alone =>
      have few := d.roots_length_le
      rw [divided, List.perm_middle.length_eq, alone, List.length_singleton] at few
      simp only [Option.map_none, Option.getD_none]
      omega
    next =>
      rw [position]
      exact d.closeGap_roots_length
  rw [rootWarnings_eq here, left, shape]
  by_cases several : 1 < d.roots.length
  · rw [if_pos several, if_pos (by omega), Nat.sub_add_cancel (by omega)]
  · rw [if_neg several, if_neg (by omega)]

theorem faults_ending {text : String} {file : Option String} {id : DesignId} {e : LoadError}
    (failed : (load text file id).outcome = .error e) :
    faults (ending (load text file id).outcome) = [e.message] := by
  rw [failed, ending]
  cases e with
  | violated v => exact absurd rfl (load_error_ne failed v)
  | _ => rfl

theorem load_faults_eq (text : String) (file : Option String) (id : DesignId) :
    faults (load text file id).events = faults (linkLog (Contents.ofText text).outcome file id) ++
      faults (ending (load text file id).outcome) := by
  have quiet := ofText_quiet text
  rw [load_events, faults_append, faults_append, quiet, List.nil_append]

/-- Once a text is read, its contents decide how the load ends and which faults it reports. -/
theorem load_of_contents {text : String} {c : Contents} (read : (Contents.ofText text).outcome = .ok c)
    (file : Option String) (id : DesignId) :
    (load text file id).outcome = (link (c.design id (file.getD "")) file c.properties).outcome ∧
      faults (load text file id).events =
        faults (Load.report (link (c.design id (file.getD "")) file c.properties)).events := by
  have outcome : (load text file id).outcome =
      (link (c.design id (file.getD "")) file c.properties).outcome := by
    rw [load_outcome, read]
    rfl
  refine ⟨outcome, ?_⟩
  rw [load_faults_eq, read, outcome, Load.report_eq, faults_append]
  rfl

/-- The messages of the faults, for each way in which a load can end. -/
theorem load_messages (text : String) (file : Option String) (id : DesignId) :
    (∃ e, (load text file id).outcome = .error e ∧ (∀ cycle, e ≠ .cyclic cycle) ∧
      faults (load text file id).events = [e.message]) ∨
    ∃ c, (Contents.ofText text).outcome = .ok c ∧
      ((∃ cycle, (load text file id).outcome = .error (.cyclic cycle) ∧
        faults (load text file id).events =
          rootWarnings (c.design id (file.getD "")).settled ++ [cycle.message]) ∨
      ∃ n, (load text file id).outcome = .ok n ∧
        faults (load text file id).events = rootWarnings (c.design id (file.getD "")).settled) := by
  have whole := load_faults_eq text file id
  cases read : (Contents.ofText text).outcome with
  | error e =>
    obtain ⟨stage, error, rfl⟩ := Refuses.ofText text e read
    have failed : (load text file id).outcome = .error (.rejected stage error) := by
      rw [load_outcome, read]
      rfl
    refine .inl ⟨_, failed, nofun, ?_⟩
    rw [whole, read, faults_ending failed]
    rfl
  | ok c =>
    rw [read] at whole
    have ended := (load_of_contents read file id).1
    have linking := link_faults (c.design_fresh id (file.getD "")) (ofText_design_ne_nil read _ _) file
      c.properties
    rw [← ended] at linking
    have linked : linkLog (.ok c) file id =
        (link (c.design id (file.getD "")) file c.properties).events := rfl
    rcases linking with ⟨e, failed, none⟩ | ⟨⟨cycle, failed⟩ | ⟨n, loaded⟩, warned⟩
    · refine .inl ⟨_, failed, nofun, ?_⟩
      rw [whole, linked, none, faults_ending failed]
      rfl
    · refine .inr ⟨c, rfl, .inl ⟨cycle, failed, ?_⟩⟩
      rw [whole, linked, warned, faults_ending failed]
      rfl
    · refine .inr ⟨c, rfl, .inr ⟨n, loaded, ?_⟩⟩
      rw [whole, linked, warned, loaded]
      exact List.append_nil _

theorem loadInto_empty (text : String) (id : DesignId) :
    loadInto (some text) none id = ⟨(load text none id).events,
      match (load text none id).outcome with
      | .ok n => .ok (.ok, some n)
      | .error _ => .ok (.error, none)⟩ := by
  cases ended : (load text none id).outcome with
  | ok n => simp [loadInto, ended]
  | error e =>
    cases e with
    | violated v => exact absurd rfl (load_error_ne ended v)
    | _ => simp [loadInto, ended]

/-- What the handlers of a channel hear of a load agrees with what the load answers with. A failure is
reported last, and a warning comes before it only if it is a cycle below the first of several top-level
modules. A root comes with a warning if it leaves top-level modules in its hierarchy. To load into an
empty output is to load, with the root or nothing as the output. -/
theorem load_faults {η : Type} (react : η → Channel η → Channel η) (c shared : Channel η)
    (text : String) (file : Option String) (id : DesignId) :
    (∃ messages,
      (c.emit react (faults (load text file id).events) shared).1 =
        messages.flatMap (fun message => c.handlers.map (⟨·, message⟩)) ∧
      (∀ e, (load text file id).outcome = .error e →
        ∃ warned, messages = warned ++ [e.message] ∧
          ((∀ cycle, e ≠ .cyclic cycle) → warned = []) ∧
          ∀ cycle, e = .cyclic cycle → ∃ contents, (Contents.ofText text).outcome = .ok contents ∧
            warned = rootWarnings (contents.design id (file.getD "")).settled) ∧
      ∀ n, (load text file id).outcome = .ok n →
        (passedOver n = 0 → messages = []) ∧
        (0 < passedOver n → messages =
          [s!"warning: the design has {passedOver n + 1} root-level modules; " ++
            s!"the first one ({Text.inQuotes n.name}) will be used and {passedOver n} ignored"])) ∧
    (loadInto (some text) none id).events = (load text none id).events ∧
    (∀ n, (loadInto (some text) none id).outcome = .ok (.ok, some n) ↔
      (load text none id).outcome = .ok n) ∧
    ((loadInto (some text) none id).outcome = .ok (.error, none) ↔
      ∃ e, (load text none id).outcome = .error e) := by
  refine ⟨⟨faults (load text file id).events, rfl, ?_, ?_⟩, ?_, ?_, ?_⟩
  · intro e failed
    rcases load_messages text file id with
      ⟨e', failed', other, told⟩ | ⟨contents, read, ⟨cycle, failed', told⟩ | ⟨n, loaded, -⟩⟩
    · obtain rfl : e = e' := Except.error.inj (failed.symm.trans failed')
      exact ⟨[], told, fun _ => rfl, fun cycle is => absurd is (other cycle)⟩
    · obtain rfl : e = .cyclic cycle := Except.error.inj (failed.symm.trans failed')
      exact ⟨_, told, fun other => absurd rfl (other cycle), fun _ _ => ⟨contents, read, rfl⟩⟩
    · cases failed.symm.trans loaded
  · intro n loaded
    rcases load_messages text file id with
      ⟨e, failed, -⟩ | ⟨contents, read, ⟨cycle, failed, -⟩ | ⟨n', loaded', told⟩⟩
    · cases failed.symm.trans loaded
    · cases failed.symm.trans loaded
    · rw [told, load_rootWarnings loaded read]
      refine ⟨fun none => ?_, fun several => ?_⟩
      · rw [none]
        rfl
      · rw [if_pos several]
        rfl
  · rw [loadInto_empty]
  · intro n
    rw [loadInto_empty]
    cases (load text none id).outcome with
    | ok n' => simp
    | error e => simp
  · rw [loadInto_empty]
    cases (load text none id).outcome with
    | ok n => simp
    | error e => simp

def cycleBelowFirstTop : String :=
  ".model top\n.subckt a\n.end\n.model a\n.subckt b\n.end\n.model b\n.subckt a\n.end\n.model other\n.end\n"

theorem load_faults_cycleBelowFirstTop : ∃ cycle,
    (load cycleBelowFirstTop none ⟨0⟩).outcome = .error (.cyclic cycle) ∧
    (Channel.emit (fun _ c => c) ⟨[.custom 1, .custom 2]⟩
      (faults (load cycleBelowFirstTop none ⟨0⟩).events) ({} : Channel Nat)).1 =
      [⟨.custom 1, severalRoots 2 "top"⟩, ⟨.custom 2, severalRoots 2 "top"⟩,
        ⟨.custom 1, cycle.message⟩, ⟨.custom 2, cycle.message⟩] := by
  have failed : (load cycleBelowFirstTop none ⟨0⟩).outcome = .error (.cyclic ⟨"top", "a"⟩) := by
    have checked : (match (load cycleBelowFirstTop none ⟨0⟩).outcome with
      | .error e => decide (e = .cyclic ⟨"top", "a"⟩)
      | .ok _ => false) = true := by decide +kernel
    cases ended : (load cycleBelowFirstTop none ⟨0⟩).outcome with
    | ok n => simp [ended] at checked
    | error e =>
      rw [ended] at checked
      rw [of_decide_eq_true checked]
  obtain ⟨c, read, several⟩ := Outcome.exists_ok_of_any
    (x := (Contents.ofText cycleBelowFirstTop).outcome)
    (p := fun c => rootWarnings (c.design ⟨0⟩ "").settled = [severalRoots 2 "top"]) (by decide +kernel)
  obtain ⟨messages, calls, onError, -⟩ := (load_faults (fun _ c => c) ⟨[.custom 1, .custom 2]⟩
    ({} : Channel Nat) cycleBelowFirstTop none ⟨0⟩).1
  obtain ⟨warned, rfl, -, cyclic⟩ := onError _ failed
  obtain ⟨c', read', rfl⟩ := cyclic _ rfl
  obtain rfl : c = c' := Except.ok.inj (read.symm.trans read')
  have several : rootWarnings (c.design ⟨0⟩ (none.getD "")).settled = [severalRoots 2 "top"] :=
    of_decide_eq_true several
  refine ⟨_, failed, calls.trans ?_⟩
  rw [several]
  rfl

end Blif

end Netlist
