import Netlist.Proofs.Linking
import Netlist.Proofs.Problems

/-!
# What the check demands

The check passes exactly the circuits whose graph is well formed. It looks at the neighbours that an
object lists and counts there and back, which is as good as counting for all pairs of objects. If it
fails, the objects that its problems find at fault are exactly those that break a condition.
-/

namespace Netlist

theorem Text.words_ne_empty {s word : String} (member : word ∈ words s) : word ≠ "" := by
  obtain ⟨cs, kept, rfl⟩ := List.mem_map.mp member
  have some := (List.mem_filter.mp kept).2
  simpa using some

/-- The row is an output value alone if there are no fan-ins, and otherwise has as many input bytes as
there are fan-ins, followed by an output value. -/
def FitsRow (width : Nat) (row : String) : Prop :=
  (width = 0 ∧ ∃ output, Text.words row = [output]) ∨
    (0 < width ∧ ∃ inputs output, Text.words row = [inputs, output] ∧ inputs.utf8ByteSize = width)

theorem rowFits_iff {width : Nat} {row : String} : rowFits width row ↔ FitsRow width row := by
  unfold rowFits FitsRow
  split
  next output words => simp [words]
  next inputs output words =>
    have some : inputs.utf8ByteSize ≠ 0 := by
      rw [ne_eq, String.utf8ByteSize_eq_zero_iff]
      exact Text.words_ne_empty (by rw [words]; exact List.mem_cons_self)
    simp only [words, decide_eq_true_eq]
    grind
  next noOutput noPair =>
    simp only [Bool.false_eq_true, false_iff, not_or, not_and, not_exists]
    exact ⟨fun _ output => noOutput output, fun _ inputs output words => absurd words (noPair inputs output)⟩

namespace Graph

def AreNets (g : Graph) (ids : List ObjectId) : Prop := ∀ id ∈ ids, ∃ o, g.get? id = some o ∧ o.kind = .net

/-- The object has the neighbours, the data and the name that its kind demands. -/
def Fits (g : Graph) (id : ObjectId) (o : Object) : Prop :=
  match o.kind with
  | .input => o.fanins = [] ∧ o.fanouts.length ≤ 1 ∧ g.AreNets o.fanouts
  | .output => o.fanins.length = 1 ∧ g.AreNets o.fanins ∧ o.fanouts = []
  | .net => o.fanins.length ≤ 1 ∧ ∃ name, o.name = some name ∧ g.net? name = some id
  | .node => o.fanouts.length = 1 ∧ g.AreNets o.fanouts ∧ g.AreNets o.fanins ∧
    ∃ rows, o.payload = .cover rows ∧ ∀ row ∈ rows, FitsRow o.fanins.length row
  | .latch => o.fanins.length = 1 ∧ g.AreNets o.fanins ∧ o.fanouts.length = 1 ∧ g.AreNets o.fanouts ∧
    ∃ init, o.payload = .latch init
  | .box => g.AreNets o.fanins ∧ g.AreNets o.fanouts ∧ ∃ target, o.payload = .uses target ∧
    target.inputs.length = o.fanins.length ∧ target.outputs.length = o.fanouts.length

/-- The object breaks no condition: its neighbours exist, all objects list it as often as it lists them,
and it has what its kind demands. -/
structure Proper (g : Graph) (id : ObjectId) (o : Object) : Prop where
  known : ∀ n ∈ o.fanins ++ o.fanouts, (g.get? n).isSome
  driven : ∀ driver x, g.get? driver = some x → x.fanouts.count id = o.fanins.count driver
  read : ∀ sink x, g.get? sink = some x → o.fanouts.count sink = x.fanins.count id
  fits : g.Fits id o

structure WellFormed (g : Graph) : Prop where
  counted : g.Counted
  known : ∀ id o, g.get? id = some o → ∀ n ∈ o.fanins ++ o.fanouts, (g.get? n).isSome
  mirrored : ∀ a b x y, g.get? a = some x → g.get? b = some y → x.fanouts.count b = y.fanins.count a
  fits : ∀ id o, g.get? id = some o → g.Fits id o
  named : ∀ name id, (name, id) ∈ g.nets → ∃ o, g.get? id = some o ∧ o.kind = .net ∧ o.name = some name

variable {g : Graph} {id : ObjectId} {o : Object} {p : Problem}

theorem WellFormed.proper (wellFormed : g.WellFormed) (found : g.get? id = some o) : g.Proper id o where
  known := wellFormed.known id o found
  driven driver x here := wellFormed.mirrored driver id x o here found
  read sink x here := wellFormed.mirrored id sink o x found here
  fits := wellFormed.fits id o found

/-! ### The parts of the check -/

theorem mem_faninProblems : p ∈ g.faninProblems id o ↔ ∃ fanin ∈ o.fanins,
    (g.get? fanin = none ∧ p = .danglingFanin id fanin) ∨
      ∃ driver, g.get? fanin = some driver ∧ o.fanins.count fanin ≠ driver.fanouts.count id ∧
        p = .unmirroredFanin id fanin := by
  rw [faninProblems, List.mem_filterMap]
  refine exists_congr fun fanin => and_congr_right fun _ => ?_
  cases g.get? fanin with
  | none => simp [eq_comm]
  | some driver =>
    by_cases same : o.fanins.count fanin = driver.fanouts.count id
    · simp [same]
    · simp only [same, if_false]
      constructor
      · rintro ⟨⟩
        exact .inr ⟨driver, rfl, same, rfl⟩
      · rintro (⟨⟨⟩, -⟩ | ⟨_, ⟨⟩, -, rfl⟩)
        rfl

theorem mem_fanoutProblems : p ∈ g.fanoutProblems id o ↔ ∃ fanout ∈ o.fanouts,
    (g.get? fanout = none ∧ p = .danglingFanout id fanout) ∨
      ∃ sink, g.get? fanout = some sink ∧ o.fanouts.count fanout ≠ sink.fanins.count id ∧
        p = .unmirroredFanout id fanout := by
  rw [fanoutProblems, List.mem_filterMap]
  refine exists_congr fun fanout => and_congr_right fun _ => ?_
  cases g.get? fanout with
  | none => simp [eq_comm]
  | some sink =>
    by_cases same : o.fanouts.count fanout = sink.fanins.count id
    · simp [same]
    · simp only [same, if_false]
      constructor
      · rintro ⟨⟩
        exact .inr ⟨sink, rfl, same, rfl⟩
      · rintro (⟨⟨⟩, -⟩ | ⟨_, ⟨⟩, -, rfl⟩)
        rfl

theorem demand_eq_nil {q : Prop} [Decidable q] : demand q p = [] ↔ q := by
  unfold demand
  split <;> simp [*]

theorem netProblems_eq_nil_iff (id : ObjectId) {ids : List ObjectId} (known : ∀ n ∈ ids, (g.get? n).isSome) :
    g.netProblems id ids = [] ↔ g.AreNets ids := by
  rw [netProblems, List.filterMap_eq_nil_iff, AreNets]
  refine forall₂_congr fun n member => ?_
  obtain ⟨x, found⟩ := Option.isSome_iff_exists.mp (known n member)
  by_cases isNet : x.kind = .net
  · simp [found, isNet]
  · simp [found, isNet]

theorem drivesOneNet_eq_nil_iff (known : ∀ n ∈ o.fanouts, (g.get? n).isSome) :
    g.drivesOneNet id o = [] ↔ o.fanouts.length = 1 ∧ g.AreNets o.fanouts := by
  rw [drivesOneNet, ← netProblems_eq_nil_iff id known]
  split <;> simp [*]

theorem coverProblems_eq_nil_iff : coverProblems id o = [] ↔
    ∃ rows, o.payload = .cover rows ∧ ∀ row ∈ rows, FitsRow o.fanins.length row := by
  unfold coverProblems
  split
  next rows cover => simp [cover, ← rowFits_iff]
  next noCover => simpa using fun rows cover => absurd cover (noCover rows)

theorem instanceProblems_eq_nil_iff : instanceProblems id o = [] ↔
    ∃ target, o.payload = .uses target ∧
      target.inputs.length = o.fanins.length ∧ target.outputs.length = o.fanouts.length := by
  unfold instanceProblems
  split
  next target uses => simp [uses]
  next noInstance => simpa using fun target uses => absurd uses (noInstance target)

theorem isRegistered_iff : g.isRegistered id o ↔ ∃ name, o.name = some name ∧ g.net? name = some id := by
  simp [isRegistered, Option.bind_eq_some_iff]

theorem latchInit?_isSome : o.latchInit?.isSome ↔ ∃ init, o.payload = .latch init := by
  unfold Object.latchInit?
  split <;> simp_all

/-- Apart from the edges and the registration of nets, an object is without problems if it fits. -/
theorem kindProblems_eq_nil_iff (known : ∀ n ∈ o.fanins ++ o.fanouts, (g.get? n).isSome) :
    (g.kindProblems id o = [] ∧ (o.kind = .net → g.isRegistered id o)) ↔ g.Fits id o := by
  obtain ⟨ins, outs⟩ := List.forall_mem_append.mp known
  unfold kindProblems Fits
  cases kind : o.kind <;>
    simp only [List.append_eq_nil_iff, demand_eq_nil, netProblems_eq_nil_iff id ins,
      netProblems_eq_nil_iff id outs, drivesOneNet_eq_nil_iff outs, coverProblems_eq_nil_iff,
      instanceProblems_eq_nil_iff, isRegistered_iff, latchInit?_isSome, reduceCtorEq, false_imp_iff,
      forall_const, and_true, and_assoc]
  tauto

end Graph

/-! ### Who is at fault -/

/-- The objects that a problem finds at fault. An edge that its two ends do not list equally often is the
fault of both. -/
def Problem.subjects : Problem → List ObjectId
  | kindCount .. | liveCount .. | misregistered .. => []
  | unmirroredFanin object fanin => [object, fanin]
  | unmirroredFanout object fanout => [object, fanout]
  | danglingFanin object _ | danglingFanout object _ | unexpectedFanins object
  | unexpectedFanouts object | severalNetsDriven object | faninCount object _
  | drivenNetCount object _ | notANet object _ | multipleDrivers object _ | missingCover object
  | coverRow object _ | missingInit object | missingInstance object | portCount object ..
  | unregistered object => [object]

/-- The wording of a problem describes the objects at fault. -/
theorem Problem.message_describes (g : Graph) {p : Problem} {id : ObjectId} (fault : id ∈ p.subjects) :
    ∃ before after, p.message g = before ++ g.describe id ++ after := by
  simp only [String.append_assoc]
  -- Every wording begins with the object that is checked, and those about edges end with its neighbour.
  have begins (o : ObjectId) (rest : String) :
      ∃ before after, g.describe o ++ rest = before ++ (g.describe o ++ after) :=
    ⟨"", rest, by rw [String.empty_append]⟩
  have ends (o : ObjectId) (front : String) :
      ∃ before after, front ++ g.describe o = before ++ (g.describe o ++ after) :=
    ⟨front, "", by rw [String.append_empty]⟩
  unfold message
  cases p <;> simp only [subjects, List.mem_cons, List.not_mem_nil, or_false] at fault
  case unmirroredFanin =>
    rcases fault with rfl | rfl
    · simp only [String.append_assoc]
      exact begins _ _
    · exact ends _ _
  case unmirroredFanout =>
    rcases fault with rfl | rfl
    · simp only [String.append_assoc]
      exact begins _ _
    · exact ends _ _
  all_goals
    obtain rfl := fault
    simp only [String.append_assoc]
    exact begins _ _

namespace Graph

variable {g : Graph} {id : ObjectId} {o : Object} {p : Problem}

def Blamed (g : Graph) (id : ObjectId) : Prop := ∃ p ∈ g.problems, id ∈ p.subjects

theorem mem_problems : p ∈ g.problems ↔ p ∈ g.countProblems ∨
    (∃ id o, g.get? id = some o ∧ p ∈ g.objectProblems id o) ∨ p ∈ g.nameProblems := by
  simp only [problems, List.mem_append, List.mem_flatMap, Prod.exists, mem_entries, or_assoc]

theorem mem_nameProblems : p ∈ g.nameProblems ↔
    (∃ name id, (name, id) ∈ g.nets ∧ g.isNetNamed name id = false ∧ p = .misregistered name id) ∨
      ∃ id o, g.get? id = some o ∧ o.kind = .net ∧ g.isRegistered id o = false ∧ p = .unregistered id := by
  simp only [nameProblems, ofKind, List.mem_append, List.mem_map, List.mem_filter, Prod.exists,
    mem_entries, decide_eq_true_eq, Bool.not_eq_true', and_assoc, eq_comm (a := p)]

theorem subjects_countProblems (member : p ∈ g.countProblems) : p.subjects = [] := by
  rcases List.mem_append.mp member with kind | live
  · obtain ⟨k, -, rfl⟩ := List.mem_map.mp kind
    rfl
  · split at live
    · cases live
    · obtain rfl := List.mem_singleton.mp live
      rfl

/-- What is found at an object by its kind is the fault of this object alone. -/
theorem subjects_kindProblems (member : p ∈ g.kindProblems id o) : p.subjects = [id] := by
  have demanded {q : Prop} [Decidable q] {x : Problem} (own : x.subjects = [id]) :
      ∀ p ∈ demand q x, p.subjects = [id] := by
    unfold demand
    split <;> simp [own]
  have nets (ids : List ObjectId) : ∀ p ∈ g.netProblems id ids, p.subjects = [id] := by
    intro p member
    obtain ⟨n, -, found⟩ := List.mem_filterMap.mp member
    grind [Problem.subjects]
  have drives : ∀ p ∈ g.drivesOneNet id o, p.subjects = [id] := by
    unfold drivesOneNet
    split
    · exact nets _
    · simp [Problem.subjects]
  have cover : ∀ p ∈ coverProblems id o, p.subjects = [id] := by
    unfold coverProblems
    split
    · exact List.forall_mem_map.mpr fun _ _ => rfl
    · exact List.forall_mem_singleton.mpr rfl
  have target : ∀ p ∈ instanceProblems id o, p.subjects = [id] := by
    unfold instanceProblems
    split
    · split <;> simp [Problem.subjects]
    · exact List.forall_mem_singleton.mpr rfl
  revert p
  unfold kindProblems
  cases o.kind <;> simp only [List.forall_mem_append]
  case input => exact ⟨⟨demanded rfl, demanded rfl⟩, nets _⟩
  case output => exact ⟨⟨demanded rfl, demanded rfl⟩, nets _⟩
  case net => exact fun {p} member => demanded rfl p member
  case node => exact ⟨⟨drives, nets _⟩, cover⟩
  case latch => exact ⟨⟨⟨demanded rfl, nets _⟩, drives⟩, demanded rfl⟩
  case box => exact ⟨⟨nets _, nets _⟩, target⟩

theorem mem_subjects_of_mem_objectProblems (member : p ∈ g.objectProblems id o) : id ∈ p.subjects := by
  rw [objectProblems, List.mem_append, List.mem_append, mem_faninProblems, mem_fanoutProblems] at member
  rcases member with (⟨_, -, ⟨-, rfl⟩ | ⟨_, -, -, rfl⟩⟩ | ⟨_, -, ⟨-, rfl⟩ | ⟨_, -, -, rfl⟩⟩) | kind
  iterate 4 exact List.mem_cons_self
  rw [subjects_kindProblems kind]
  exact List.mem_cons_self

/-- An object at which nothing is found, and which nothing found elsewhere blames, breaks no condition. -/
theorem proper_of_not_blamed (found : g.get? id = some o) (free : ¬ g.Blamed id) : g.Proper id o := by
  -- An edge that the object does not list can only be found at its other end.
  have elsewhere {j : ObjectId} {x : Object} (here : g.get? j = some x) (p : Problem)
      (fault : id ∈ p.subjects) : p ∉ g.objectProblems j x := fun member =>
    free ⟨p, mem_problems.mpr (.inr (.inl ⟨j, x, here, member⟩)), fault⟩
  have nothing (p : Problem) : p ∉ g.objectProblems id o := fun member =>
    elsewhere found p (mem_subjects_of_mem_objectProblems member) member
  simp only [objectProblems, List.mem_append, not_or, mem_faninProblems, mem_fanoutProblems] at nothing elsewhere
  have known : ∀ n ∈ o.fanins ++ o.fanouts, (g.get? n).isSome := by
    intro n member
    by_contra absent
    rw [Option.not_isSome_iff_eq_none] at absent
    rcases List.mem_append.mp member with fanin | fanout
    · exact (nothing _).1.1 ⟨n, fanin, .inl ⟨absent, rfl⟩⟩
    · exact (nothing _).1.2 ⟨n, fanout, .inl ⟨absent, rfl⟩⟩
  refine ⟨known, ?_, ?_, ?_⟩
  · intro driver x here
    by_contra differ
    by_cases listed : driver ∈ o.fanins
    · exact (nothing _).1.1 ⟨driver, listed, .inr ⟨x, here, Ne.symm differ, rfl⟩⟩
    · have fanout : id ∈ x.fanouts := by
        rw [List.count_eq_zero.mpr listed] at differ
        exact List.count_pos_iff.mp (Nat.pos_of_ne_zero differ)
      exact (elsewhere here (.unmirroredFanout driver id) (by simp [Problem.subjects])).1.2
        ⟨id, fanout, .inr ⟨o, found, differ, rfl⟩⟩
  · intro sink x here
    by_contra differ
    by_cases listed : sink ∈ o.fanouts
    · exact (nothing _).1.2 ⟨sink, listed, .inr ⟨x, here, differ, rfl⟩⟩
    · have fanin : id ∈ x.fanins := by
        rw [List.count_eq_zero.mpr listed] at differ
        exact List.count_pos_iff.mp (Nat.pos_of_ne_zero (Ne.symm differ))
      exact (elsewhere here (.unmirroredFanin sink id) (by simp [Problem.subjects])).1.1
        ⟨id, fanin, .inr ⟨o, found, Ne.symm differ, rfl⟩⟩
  · refine (kindProblems_eq_nil_iff known).mp ⟨List.eq_nil_iff_forall_not_mem.mpr fun p => (nothing p).2, ?_⟩
    intro isNet
    by_contra unregistered
    refine free ⟨.unregistered id, mem_problems.mpr (.inr (.inr (mem_nameProblems.mpr (.inr ?_)))),
      List.mem_cons_self⟩
    exact ⟨id, o, found, isNet, by simpa using unregistered, rfl⟩

theorem Proper.not_blamed (proper : g.Proper id o) (found : g.get? id = some o) : ¬ g.Blamed id := by
  rintro ⟨p, member, fault⟩
  obtain ⟨noKind, registered⟩ := (kindProblems_eq_nil_iff proper.known).mpr proper.fits
  rcases mem_problems.mp member with count | ⟨j, x, here, own⟩ | name
  · rw [subjects_countProblems count] at fault
    cases fault
  · have same (at_id : id = j) : o = x := by
      subst at_id
      exact Option.some.inj (found.symm.trans here)
    rw [objectProblems, List.mem_append, List.mem_append, mem_faninProblems, mem_fanoutProblems] at own
    rcases own with (⟨n, listed, ⟨absent, rfl⟩ | ⟨driver, there, differ, rfl⟩⟩ |
      ⟨n, listed, ⟨absent, rfl⟩ | ⟨sink, there, differ, rfl⟩⟩) | kind
    · obtain rfl := same (List.mem_singleton.mp fault)
      simpa [absent] using proper.known n (List.mem_append_left _ listed)
    · rcases List.mem_pair.mp fault with at_id | rfl
      · obtain rfl := same at_id
        subst at_id
        exact differ (proper.driven n driver there).symm
      · obtain rfl := Option.some.inj (found.symm.trans there)
        exact differ (proper.read j x here).symm
    · obtain rfl := same (List.mem_singleton.mp fault)
      simpa [absent] using proper.known n (List.mem_append_right _ listed)
    · rcases List.mem_pair.mp fault with at_id | rfl
      · obtain rfl := same at_id
        subst at_id
        exact differ (proper.read n sink there)
      · obtain rfl := Option.some.inj (found.symm.trans there)
        exact differ (proper.driven j x here)
    · rw [subjects_kindProblems kind] at fault
      obtain rfl := List.mem_singleton.mp fault
      obtain rfl := same rfl
      rw [noKind] at kind
      cases kind
  · rcases mem_nameProblems.mp name with ⟨_, _, -, -, rfl⟩ | ⟨j, x, here, isNet, unregistered, rfl⟩
    · cases fault
    · obtain rfl := List.mem_singleton.mp fault
      obtain rfl := Option.some.inj (found.symm.trans here)
      rw [registered isNet] at unregistered
      cases unregistered

theorem blamed_iff (found : g.get? id = some o) : g.Blamed id ↔ ¬ g.Proper id o :=
  ⟨fun blamed proper => proper.not_blamed found blamed,
    fun improper => by_contra fun free => improper (proper_of_not_blamed found free)⟩

/-! ### The check as a whole -/

theorem countProblems_eq_nil_iff : g.countProblems = [] ↔ g.Counted := by
  refine ⟨fun none => ?_, Counted.countProblems_eq_nil⟩
  obtain ⟨kinds, live⟩ := List.append_eq_nil_iff.mp none
  rw [List.map_eq_nil_iff, List.filter_eq_nil_iff] at kinds
  refine ⟨fun k => ?_, ?_⟩
  · simpa using kinds k (Kind.mem_all k)
  · simpa using live

theorem isNetNamed_iff {name : String} :
    g.isNetNamed name id ↔ ∃ o, g.get? id = some o ∧ o.kind = .net ∧ o.name = some name := by
  unfold isNetNamed
  cases g.get? id <;> simp

theorem problems_eq_nil_iff : g.problems = [] ↔ g.WellFormed := by
  constructor
  · intro none
    have proper (id o) (found : g.get? id = some o) : g.Proper id o :=
      proper_of_not_blamed found (by simp [Blamed, none])
    have parts : (g.countProblems ++ _) ++ g.nameProblems = [] := none
    obtain ⟨⟨counts, -⟩, names⟩ := by simpa only [List.append_eq_nil_iff] using parts
    refine ⟨countProblems_eq_nil_iff.mp counts, fun id o found => (proper id o found).known, ?_,
      fun id o found => (proper id o found).fits, ?_⟩
    · intro a b x y here there
      exact (proper a x here).read b y there
    · intro name id registered
      by_contra misnamed
      have problem : Problem.misregistered name id ∈ g.nameProblems := by
        rw [← isNetNamed_iff, Bool.not_eq_true] at misnamed
        exact mem_nameProblems.mpr (.inl ⟨name, id, registered, misnamed, rfl⟩)
      rw [names] at problem
      cases problem
  · intro wellFormed
    have blameless (id o) (found : g.get? id = some o) : ¬ g.Blamed id :=
      (wellFormed.proper found).not_blamed found
    refine List.eq_nil_iff_forall_not_mem.mpr fun p member => ?_
    rcases mem_problems.mp member with count | ⟨id, o, found, own⟩ | name
    · rw [countProblems_eq_nil_iff.mpr wellFormed.counted] at count
      cases count
    · exact blameless id o found ⟨p, member, mem_subjects_of_mem_objectProblems own⟩
    · rcases mem_nameProblems.mp name with ⟨name, id, registered, misnamed, -⟩ | ⟨id, o, found, -, -, rfl⟩
      · have named := isNetNamed_iff.mpr (wellFormed.named name id registered)
        rw [misnamed] at named
        cases named
      · exact blameless id o found ⟨_, member, List.mem_cons_self⟩

end Graph

/-- A circuit passes its check exactly if its graph is well formed. If it fails, the report is about this
circuit, and the objects that break a condition are those that some problem of the report describes as
at fault. -/
theorem Circuit.check_exact (c : Circuit) :
    (c.check.outcome = .ok () ↔ c.graph.WellFormed) ∧
    ∀ e, c.check.outcome = .error e →
      e.network = c.name ∧ e.problems = c.graph.problems.map (·.message c.graph) ∧
      ∀ id o, c.graph.get? id = some o → (¬ c.graph.Proper id o ↔
        ∃ p ∈ c.graph.problems, id ∈ p.subjects ∧ ∃ before after,
          p.message c.graph = before ++ c.graph.describe id ++ after) := by
  refine ⟨Blif.check_eq_ok.trans Graph.problems_eq_nil_iff, fun e failed => ?_⟩
  obtain ⟨-, rfl⟩ := check_eq_error.mp failed
  refine ⟨rfl, rfl, fun id o found => ?_⟩
  rw [← Graph.blamed_iff found]
  constructor
  · rintro ⟨p, member, fault⟩
    exact ⟨p, member, fault, p.message_describes c.graph fault⟩
  · rintro ⟨p, member, fault, -⟩
    exact ⟨p, member, fault⟩

/-- The input lists the net, which does not list the input. -/
def halfEdge : Circuit where
  name := "half"
  type := .netlist
  function := .sop
  graph := {
    objects := #[{ kind := .input, name := some "a", fanouts := [⟨1⟩] }, { kind := .net, name := some "a" }]
    tally := { input := 1, net := 1 }
    live := 2
    nets := [("a", ⟨1⟩)] }

/-- Its only problem is the fault of both. -/
theorem Circuit.check_exact_halfEdge : ∃ e input net, halfEdge.check.outcome = .error e ∧
    e.problems = ["input \"a\" is not a fan-in of its fan-out net \"a\""] ∧
    halfEdge.graph.get? ⟨0⟩ = some input ∧ halfEdge.graph.get? ⟨1⟩ = some net ∧
    ¬ halfEdge.graph.Proper ⟨0⟩ input ∧ ¬ halfEdge.graph.Proper ⟨1⟩ net := by
  have found : halfEdge.graph.problems = [.unmirroredFanout ⟨0⟩ ⟨1⟩] := by decide +kernel
  have failed : halfEdge.check.outcome =
      .error ⟨"half", ["input \"a\" is not a fan-in of its fan-out net \"a\""]⟩ := by decide +kernel
  have fault := (check_exact halfEdge).2 _ failed
  refine ⟨_, _, _, failed, rfl, rfl, rfl, (fault.2.2 ⟨0⟩ _ rfl).mpr ?_, (fault.2.2 ⟨1⟩ _ rfl).mpr ?_⟩
  · exact ⟨_, by rw [found]; exact List.mem_cons_self, by decide, Problem.message_describes _ (by decide)⟩
  · exact ⟨_, by rw [found]; exact List.mem_cons_self, by decide, Problem.message_describes _ (by decide)⟩

end Netlist
