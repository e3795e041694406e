import Netlist.Proofs.Problems

/-!
# Graphs that calls have made

Whatever callers do to a graph, its counters stay right, its registered names stay bound to their nets,
and its objects stay what they were added as, but for the initial values of latches. Edges need a word
more. A call that finds no object at the sink leaves a fan-out behind, and a later object may take the
position. So fan-outs and fan-ins agree but for such calls, each counted when it was made.
-/

namespace Netlist

def Payload.withInit (init : LatchInit) : Payload → Payload
  | .latch _ => .latch init
  | p => p

namespace Graph

inductive Call where
  | add (kind : Kind) (name : Option String) (payload : Payload)
  | findOrAddNet (signal : String)
  | connect (driver sink : ObjectId)
  | setLatchInit (id : ObjectId) (init : LatchInit)
  deriving DecidableEq

def Call.after (g : Graph) : Call → Graph
  | add kind name payload => g.add kind name payload
  | findOrAddNet signal => (g.findOrAddNet signal).2
  | connect driver sink => ((Graph.connect driver sink).run.run g).2
  | setLatchInit id init => (g.setLatchInit id init).2

/-- The graph that the calls make, one after the other. -/
def made (calls : List Call) : Graph := calls.foldl Call.after {}

def Call.setting (id : ObjectId) (p : Payload) : Call → Payload
  | setLatchInit other init => if other = id then p.withInit init else p
  | _ => p

/-- The call is for this edge and stops at its sink, which does not exist, while the driver does. -/
def Call.Misses (driver sink : ObjectId) (g : Graph) (c : Call) : Prop :=
  c = .connect driver sink ∧ (g.get? driver).isSome ∧
    ((Graph.connect driver sink).run.run g).1 = .error (.indexOutOfBounds g.objects.size sink.index)

instance (driver sink : ObjectId) (g : Graph) (c : Call) : Decidable (c.Misses driver sink g) :=
  inferInstanceAs (Decidable (_ ∧ _ ∧ _))

/-- How many of the calls stop at the sink of this edge, if the first one meets `g`. -/
def misses (driver sink : ObjectId) (g : Graph) : List Call → Nat
  | [] => 0
  | c :: calls => (if c.Misses driver sink g then 1 else 0) + misses driver sink (c.after g) calls

variable {g : Graph} {id driver sink : ObjectId} {o : Object} {name signal : String}
  {missed : ObjectId → ObjectId → Nat}

/-! ### What single calls do to an object -/

theorem get?_isSome : (g.get? id).isSome ↔ id.index < g.objects.size := by
  simp [get?]

theorem eq_iff_index {id other : ObjectId} : id = other ↔ id.index = other.index := by
  cases id
  cases other
  simp

theorem get?_add (g : Graph) (kind name payload) (id : ObjectId) :
    (g.add kind name payload).get? id =
      if id = g.next then some { kind := kind, name := name, payload := payload } else g.get? id := by
  simp [get?, add, next, Array.getElem?_push, eq_iff_index]

theorem get?_next (g : Graph) : g.get? g.next = none := by
  simp [get?, next]

theorem get?_link (g : Graph) (driver sink id : ObjectId) :
    (g.link driver sink).get? id = (g.get? id).map fun o => (touch driver sink (id, o)).2 := by
  simp only [get?, link, touch, Array.getElem?_modify, eq_iff_index]
  by_cases driven : driver.index = id.index <;> by_cases read : sink.index = id.index <;>
    simp [driven, read, eq_comm, Function.comp_def]

theorem get?_setLatchInit (g : Graph) (latch : ObjectId) (init : LatchInit) (id : ObjectId) :
    (g.setLatchInit latch init).2.get? id = (g.get? id).map fun o =>
      { o with payload := (Call.setLatchInit latch init).setting id o.payload } := by
  unfold setLatchInit
  split
  next o found =>
    simp only [get?, Array.getElem?_modify, Call.setting, eq_iff_index] at found ⊢
    by_cases here : latch.index = id.index
    · rw [here] at found
      simp [here, found, Payload.withInit]
    · simp [here]
  next noLatch =>
    cases found : g.get? id with
    | none => simp
    | some o =>
      by_cases here : latch = id
      · subst here
        have other : ∀ v, o.payload ≠ .latch v := by
          intro v holds
          obtain ⟨kind, name, payload, fanins, fanouts⟩ := o
          subst holds
          exact noLatch _ _ _ _ _ found
        have kept : o.payload.withInit init = o.payload := by
          unfold Payload.withInit
          split
          next v holds => exact absurd holds (other v)
          next => rfl
        simp [Call.setting, kept]
      · simp [Call.setting, here]

/-! ### How an edge is added -/

theorem update_stops {f : Object → Object} (outside : ¬ id.index < g.objects.size) :
    Stops (update id f) g (.indexOutOfBounds g.objects.size id.index) g := by
  refine (yields_get g).thenStops ?_
  simp only [outside, if_false]
  exact (stops_throw _ g).early _

theorem modify_of_le {objects : Array Object} {i : Nat} (outside : objects.size ≤ i)
    (f : Object → Object) : objects.modify i f = objects := by
  apply Array.ext_getElem?
  intro j
  rw [Array.getElem?_modify]
  split
  next here => simp [← here, outside]
  next => rfl

/-- Without an object at the sink the driver keeps the edge all the same. -/
theorem connect_stops_at_sink (driver_inside : driver.index < g.objects.size)
    (sink_outside : ¬ sink.index < g.objects.size) : Stops (connect driver sink) g
      (.indexOutOfBounds g.objects.size sink.index) (g.link driver sink) := by
  let half : Graph := { g with objects :=
    (g.objects.modify driver.index fun o => { o with fanouts := o.fanouts ++ [sink] }) }
  have size : half.objects.size = g.objects.size := Array.size_modify
  have unread : g.link driver sink = half := by
    rw [link, modify_of_le]
    exact Nat.le_of_not_lt (size ▸ sink_outside)
  have first : Yields (update driver _) g () half := update_yields _ driver_inside
  have rest := first.thenStops (f := fun _ => update sink fun o => { o with fanins := o.fanins ++ [driver] })
    (update_stops (by rwa [size]))
  rwa [size, ← unread] at rest

theorem connect_stops_at_driver (driver_outside : ¬ driver.index < g.objects.size) :
    Stops (connect driver sink) g (.indexOutOfBounds g.objects.size driver.index) g :=
  (update_stops driver_outside).early _

theorem after_connect (g : Graph) (driver sink : ObjectId) :
    (Call.connect driver sink).after g = if (g.get? driver).isSome then g.link driver sink else g := by
  split
  next found =>
    have driver_inside := get?_isSome.mp found
    by_cases sink_inside : sink.index < g.objects.size
    · exact congrArg Prod.snd (connect_yields driver_inside sink_inside)
    · exact congrArg Prod.snd (connect_stops_at_sink driver_inside sink_inside)
  next absent => exact congrArg Prod.snd (connect_stops_at_driver (mt get?_isSome.mpr absent))

theorem misses_iff {c : Call} : c.Misses driver sink g ↔
    c = .connect driver sink ∧ (g.get? driver).isSome ∧ g.get? sink = none := by
  have none_iff : g.get? sink = none ↔ ¬ sink.index < g.objects.size := by
    rw [← get?_isSome, Option.not_isSome_iff_eq_none]
  rw [Call.Misses, none_iff]
  refine and_congr_right fun _ => and_congr_right fun exists_driver => ?_
  have driver_inside := get?_isSome.mp exists_driver
  constructor
  · intro stopped sink_inside
    rw [connect_yields driver_inside sink_inside] at stopped
    cases stopped
  · intro sink_outside
    exact congrArg Prod.fst (connect_stops_at_sink driver_inside sink_outside)

/-! ### The balance of the edges -/

def fanins (g : Graph) (id : ObjectId) : List ObjectId := (g.get? id).elim [] (·.fanins)

def fanouts (g : Graph) (id : ObjectId) : List ObjectId := (g.get? id).elim [] (·.fanouts)

/-- Fan-outs and fan-ins agree but for the edges that `missed` counts. -/
def Balanced (g : Graph) (missed : ObjectId → ObjectId → Nat) : Prop :=
  ∀ driver sink, (g.fanouts driver).count sink = (g.fanins sink).count driver + missed driver sink

theorem neighbours_add (g : Graph) (kind name payload) (id : ObjectId) :
    (g.add kind name payload).fanins id = g.fanins id ∧
      (g.add kind name payload).fanouts id = g.fanouts id := by
  simp only [fanins, fanouts, get?_add]
  split
  next new => simp [new, get?_next]
  next => exact ⟨rfl, rfl⟩

theorem neighbours_findOrAddNet (g : Graph) (signal : String) (id : ObjectId) :
    (g.findOrAddNet signal).2.fanins id = g.fanins id ∧
      (g.findOrAddNet signal).2.fanouts id = g.fanouts id := by
  unfold findOrAddNet
  split
  · exact ⟨rfl, rfl⟩
  · exact g.neighbours_add .net (some signal) .none id

theorem neighbours_setLatchInit (g : Graph) (latch : ObjectId) (init : LatchInit) (id : ObjectId) :
    (g.setLatchInit latch init).2.fanins id = g.fanins id ∧
      (g.setLatchInit latch init).2.fanouts id = g.fanouts id := by
  simp only [fanins, fanouts, get?_setLatchInit]
  cases g.get? id <;> exact ⟨rfl, rfl⟩

theorem fanins_link (g : Graph) (driver sink id : ObjectId) : (g.link driver sink).fanins id =
    g.fanins id ++ if id = sink ∧ (g.get? sink).isSome then [driver] else [] := by
  simp only [fanins, get?_link, touch]
  by_cases read : id = sink
  · subst read
    cases g.get? id <;> simp
  · cases g.get? id <;> simp [read]

theorem fanouts_link (g : Graph) (driver sink id : ObjectId) : (g.link driver sink).fanouts id =
    g.fanouts id ++ if id = driver ∧ (g.get? driver).isSome then [sink] else [] := by
  simp only [fanouts, get?_link, touch]
  by_cases driven : id = driver
  · subst driven
    cases g.get? id <;> simp
  · cases g.get? id <;> simp [driven]

theorem balanced_empty : Balanced {} fun _ _ => 0 := fun _ _ => rfl

/-- A new edge adds to both sides of the balance, or to neither if it is counted as missed. -/
theorem Balanced.link (balanced : g.Balanced missed) (present : (g.get? driver).isSome)
    (sink : ObjectId) : (g.link driver sink).Balanced fun d s =>
      missed d s + if (d = driver ∧ s = sink) ∧ g.get? sink = none then 1 else 0 := by
  intro d s
  dsimp only
  rw [fanouts_link, fanins_link, List.count_append, List.count_append, balanced d s]
  by_cases driven : d = driver
  · subst driven
    by_cases read : s = sink
    · subst read
      cases g.get? s with
      | none => simp [present, Nat.add_assoc]
      | some o => simp [present, Nat.add_right_comm]
    · simp [read, present, Ne.symm read]
  · have other : (if s = sink ∧ (g.get? sink).isSome then [driver] else []).count d = 0 := by
      split <;> simp [Ne.symm driven]
    simp [driven, other]

theorem Balanced.after (balanced : g.Balanced missed) (c : Call) :
    (c.after g).Balanced fun driver sink =>
      missed driver sink + if c.Misses driver sink g then 1 else 0 := by
  -- Only a call for an edge changes neighbours or is ever counted as missed.
  have quiet (same : ∀ id, (c.after g).fanins id = g.fanins id ∧ (c.after g).fanouts id = g.fanouts id)
      (hit : ∀ driver sink, ¬ c.Misses driver sink g) : (c.after g).Balanced fun driver sink =>
        missed driver sink + if c.Misses driver sink g then 1 else 0 := by
    intro driver sink
    simpa [hit driver sink, (same driver).2, (same sink).1] using balanced driver sink
  cases c with
  | add kind name payload =>
    exact quiet (g.neighbours_add kind name payload) fun _ _ misses => nomatch misses.1
  | findOrAddNet signal =>
    exact quiet (g.neighbours_findOrAddNet signal) fun _ _ misses => nomatch misses.1
  | setLatchInit latch init =>
    exact quiet (g.neighbours_setLatchInit latch init) fun _ _ misses => nomatch misses.1
  | connect d s =>
    cases found : g.get? d with
    | none =>
      refine quiet (by simp [after_connect, found]) fun driver sink misses => ?_
      obtain ⟨edge, present, -⟩ := misses_iff.mp misses
      cases edge
      simp [found] at present
    | some o =>
      have present : (g.get? d).isSome := by rw [found]; rfl
      have linked := balanced.link present s
      rw [after_connect, if_pos present]
      intro driver sink
      rw [linked driver sink]
      simp only [misses_iff, Call.connect.injEq]
      grind

theorem Balanced.foldl (balanced : g.Balanced missed) (calls : List Call) :
    (calls.foldl Call.after g).Balanced fun driver sink =>
      missed driver sink + misses driver sink g calls := by
  induction calls generalizing g missed with
  | nil => exact balanced
  | cons c calls ih =>
    intro driver sink
    have rest := ih (balanced.after c) driver sink
    simp only [List.foldl_cons, misses] at rest ⊢
    omega

/-! ### Counters, names and data -/

theorem count_modify {f : Object → Object} (keeps : ∀ o, (f o).kind = o.kind) (objects : Array Object)
    (i : Nat) (k : Kind) : (objects.modify i f).toList.countP (fun o => o.kind = k) =
      objects.toList.countP fun o => o.kind = k := by
  have kinds : (objects.modify i f).toList.map Object.kind = objects.toList.map Object.kind := by
    apply List.ext_getElem?
    intro j
    simp only [List.getElem?_map, Array.getElem?_toList, Array.getElem?_modify]
    split
    · simp [Function.comp_def, keeps]
    · rfl
  have counted := congrArg (List.countP (· = k)) kinds
  rwa [List.countP_map, List.countP_map] at counted

theorem Counted.setLatchInit (counted : g.Counted) (latch : ObjectId) (init : LatchInit) :
    (g.setLatchInit latch init).2.Counted := by
  unfold Graph.setLatchInit
  split
  · refine ⟨fun k => ?_, ?_⟩
    · refine (counted.tally k).trans (count_modify ?_ g.objects latch.index k).symm
      exact fun _ => rfl
    · exact counted.live.trans Array.size_modify.symm
  · exact counted

theorem Counted.after (counted : g.Counted) (c : Call) : (c.after g).Counted := by
  cases c with
  | add kind name payload => exact counted.add kind name payload
  | findOrAddNet signal => exact counted.findOrAddNet signal
  | setLatchInit latch init => exact counted.setLatchInit latch init
  | connect driver sink =>
    rw [after_connect]
    split
    · exact counted.link driver sink
    · exact counted

/-- A name that is registered stays so, and a call registers no name but the one it is about. -/
theorem net?_after (g : Graph) (c : Call) (name : String) : (c.after g).net? name =
    (g.net? name).or (if c = .findOrAddNet name then some g.next else none) := by
  have quiet (same : (c.after g).nets = g.nets) (other : c ≠ .findOrAddNet name) :
      (c.after g).net? name = (g.net? name).or (if c = .findOrAddNet name then some g.next else none) := by
    rw [net?, same, if_neg other, Option.or_none]
    rfl
  cases c with
  | add kind name payload => exact quiet rfl (by simp)
  | setLatchInit latch init =>
    refine quiet ?_ (by simp)
    rw [Call.after, setLatchInit]
    split <;> rfl
  | connect driver sink =>
    refine quiet ?_ (by simp)
    rw [after_connect]
    split <;> rfl
  | findOrAddNet signal =>
    simp only [Call.after, Call.findOrAddNet.injEq]
    unfold Graph.findOrAddNet
    split
    next id found =>
      by_cases same : signal = name
      · subst same
        simp [found]
      · simp [same]
    next absent =>
      have appended : (g.nets ++ [(signal, g.next)]).lookup name =
          (g.net? name).or (List.lookup name [(signal, g.next)]) := List.lookup_append
      refine appended.trans ?_
      by_cases same : signal = name
      · simp [same]
      · simp [same, List.lookup_cons, beq_false_of_ne (Ne.symm same)]

/-- An object stays, with its kind and its name, and only the initial value of a latch is ever set. -/
theorem get?_after (found : g.get? id = some o) (c : Call) : ∃ o', (c.after g).get? id = some o' ∧
    o'.kind = o.kind ∧ o'.name = o.name ∧ o'.payload = c.setting id o.payload := by
  have old : id ≠ g.next := by
    rintro rfl
    rw [get?_next] at found
    cases found
  cases c with
  | add kind name payload => exact ⟨o, by simpa [Call.after, get?_add, old] using found, rfl, rfl, rfl⟩
  | setLatchInit latch init =>
    rw [Call.after, get?_setLatchInit, found]
    exact ⟨_, rfl, rfl, rfl, rfl⟩
  | connect driver sink =>
    rw [after_connect]
    split
    · rw [get?_link, found]
      exact ⟨_, rfl, rfl, rfl, rfl⟩
    · exact ⟨o, found, rfl, rfl, rfl⟩
  | findOrAddNet signal =>
    refine ⟨o, ?_, rfl, rfl, rfl⟩
    rw [Call.after, findOrAddNet]
    split
    · exact found
    · have grown := g.get?_add .net (some signal) .none id
      rw [if_neg old] at grown
      exact grown.trans found

def Named (g : Graph) : Prop :=
  ∀ name id, g.net? name = some id → ∃ o, g.get? id = some o ∧ o.kind = .net ∧ o.name = some name

theorem named_empty : Named {} := nofun

theorem Named.after (named : g.Named) (c : Call) : (c.after g).Named := by
  intro name id found
  rw [net?_after] at found
  cases known : g.net? name with
  | some net =>
    obtain rfl : net = id := by simpa [known] using found
    obtain ⟨o, here, kind, own⟩ := named name net known
    obtain ⟨o', there, sameKind, sameName, -⟩ := get?_after here c
    exact ⟨o', there, sameKind.trans kind, sameName.trans own⟩
  | none =>
    rw [known, Option.none_or] at found
    split at found
    next this =>
      obtain rfl := Option.some.inj found
      have grown := g.get?_add .net (some name) .none g.next
      rw [if_pos rfl] at grown
      refine ⟨{ kind := .net, name := some name }, ?_, rfl, rfl⟩
      rw [this, Call.after, findOrAddNet, known]
      exact grown
    next => cases found

/-! ### Runs -/

theorem net?_foldl {name : String} (known : g.net? name = some id) (calls : List Call) :
    (calls.foldl Call.after g).net? name = some id := by
  induction calls generalizing g with
  | nil => exact known
  | cons c calls ih => exact ih (by rw [net?_after, known, Option.some_or])

theorem get?_foldl (found : g.get? id = some o) (calls : List Call) :
    ∃ o', (calls.foldl Call.after g).get? id = some o' ∧ o'.kind = o.kind ∧ o'.name = o.name ∧
      o'.payload = calls.foldl (Call.setting id) o.payload := by
  induction calls generalizing g o with
  | nil => exact ⟨o, found, rfl, rfl, rfl⟩
  | cons c calls ih =>
    obtain ⟨between, here, kind, name, payload⟩ := get?_after found c
    obtain ⟨o', there, sameKind, sameName, samePayload⟩ := ih here
    refine ⟨o', there, sameKind.trans kind, sameName.trans name, ?_⟩
    rw [samePayload, payload, List.foldl_cons]

theorem Counted.foldl (counted : g.Counted) (calls : List Call) :
    (calls.foldl Call.after g).Counted := by
  induction calls generalizing g with
  | nil => exact counted
  | cons c calls ih => exact ih (counted.after c)

theorem Named.foldl (named : g.Named) (calls : List Call) : (calls.foldl Call.after g).Named := by
  induction calls generalizing g with
  | nil => exact named
  | cons c calls ih => exact ih (named.after c)

/-- What holds of a graph after any calls: its counters are right, names are bound for good and each to
a net of its own, objects stay what they are, fan-ins exist, and the fan-outs of an object are mirrored
but for the calls that found no object at the sink. -/
theorem made_coherent (calls : List Call) :
    ((∀ k, (made calls).tally.of k = (made calls).count k) ∧
      (made calls).live = (made calls).objects.size) ∧
    (∀ name id, (made calls).net? name = some id →
      (∃ o, (made calls).get? id = some o ∧ o.kind = .net ∧ o.name = some name) ∧
      ∀ other, (made calls).net? other = some id → other = name) ∧
    (∀ earlier later, calls = earlier ++ later →
      (∀ name id, (made earlier).net? name = some id → (made calls).net? name = some id) ∧
      ∀ id o, (made earlier).get? id = some o → ∃ o', (made calls).get? id = some o' ∧
        o'.kind = o.kind ∧ o'.name = o.name ∧ o'.payload = later.foldl (Call.setting id) o.payload) ∧
    (∀ id o, (made calls).get? id = some o → ∀ fanin ∈ o.fanins, ((made calls).get? fanin).isSome) ∧
    ∀ driver o, (made calls).get? driver = some o → ∀ sink,
      o.fanouts.count sink = (((made calls).get? sink).elim 0 fun x => x.fanins.count driver) +
        misses driver sink {} calls := by
  have counted : (made calls).Counted := counted_empty.foldl calls
  have named : (made calls).Named := named_empty.foldl calls
  have balanced : (made calls).Balanced _ := balanced_empty.foldl calls
  refine ⟨⟨counted.tally, counted.live⟩, fun name id found => ?_, ?_, ?_, ?_⟩
  · obtain ⟨o, here, kind, own⟩ := named name id found
    refine ⟨⟨o, here, kind, own⟩, fun other again => ?_⟩
    obtain ⟨o', here', -, own'⟩ := named other id again
    obtain rfl := Option.some.inj (here.symm.trans here')
    exact Option.some.inj (own'.symm.trans own)
  · rintro earlier later rfl
    have rest : made (earlier ++ later) = later.foldl Call.after (made earlier) := List.foldl_append
    rw [rest]
    exact ⟨fun name id known => net?_foldl known later, fun id o found => get?_foldl found later⟩
  · intro id o found fanin member
    by_contra absent
    have edges := balanced fanin id
    rw [Option.not_isSome_iff_eq_none] at absent
    have inside : 0 < o.fanins.count fanin := List.count_pos_iff.mpr member
    simp only [fanouts, fanins, found, absent, Option.elim_some, Option.elim_none, List.count_nil] at edges
    omega
  · intro driver o found sink
    have edges := balanced driver sink
    simp only [fanouts, fanins, found, Option.elim_some, Nat.zero_add] at edges
    rw [edges]
    cases (made calls).get? sink <;> rfl

/-- The first call for the edge finds no object at its sink, the second one finds the net that has been
added meanwhile. -/
def lateSink : List Call :=
  [.add .input (some "a") .none, .connect ⟨0⟩ ⟨1⟩, .findOrAddNet "a", .connect ⟨0⟩ ⟨1⟩]

theorem made_coherent_lateSink : ∃ input net, (made lateSink).get? ⟨0⟩ = some input ∧
    (made lateSink).get? ⟨1⟩ = some net ∧ net.fanins = [⟨0⟩] ∧ misses ⟨0⟩ ⟨1⟩ {} lateSink = 1 ∧
    input.fanouts.count ⟨1⟩ = 2 := by
  have missed : misses ⟨0⟩ ⟨1⟩ {} lateSink = 1 := by decide +kernel
  have at_input : (made lateSink).get? ⟨0⟩ =
      some { kind := .input, name := some "a", fanouts := [⟨1⟩, ⟨1⟩] } := by decide +kernel
  have at_net : (made lateSink).get? ⟨1⟩ =
      some { kind := .net, name := some "a", fanins := [⟨0⟩] } := by decide +kernel
  refine ⟨_, _, at_input, at_net, rfl, missed, ?_⟩
  have edges := (made_coherent lateSink).2.2.2.2 _ _ at_input ⟨1⟩
  rw [at_net, missed] at edges
  exact edges

end Graph

end Netlist
