/-
What a bounded log holds.

`LastOf k l s`: `s` are the last `k` items of `l`, or all of them if there are fewer. A log holds the last of what was
pushed since it was cleared, as many as its capacity allows: one push keeps this (`LastOf.push`), and so does a run of
pushes and clearings (`LastOf.foldl_play`). A positive number asks a log for its last items. If the stamps of a log never fall,
those from some stamp on stand behind those before it (`filter_stamps_append`).

- `recent_items`: what a log holds and answers after any pushes and clearings, and what a query over HTTP gets of it.
- `latest_zero`: asked for no items, a log answers with all it holds.
-/
import Mathlib.Data.List.Basic
import SceneGrammar.Proofs.Exact
import SceneGrammar.Service.Http

namespace SceneGrammar

variable {ε : Type}

namespace Ring

/-- the last `k` items of a list, or all of them if there are fewer -/
structure LastOf (k : Nat) (l s : List ε) : Prop where
  suffix : s <:+ l
  length : s.length = min k l.length

section

variable {k : Nat} {l s t : List ε}

theorem LastOf.unique (h : LastOf k l s) (i : LastOf k l t) : s = t :=
  (List.suffix_of_suffix_length_le h.suffix i.suffix (h.length.trans i.length.symm).le).eq_of_length
    (h.length.trans i.length.symm)

theorem lastOf_drop (k : Nat) (l : List ε) : LastOf k l (l.drop (l.length - k)) :=
  ⟨List.drop_suffix _ _, by rw [List.length_drop]; omega⟩

/-- a positive number asks for the last items -/
theorem lastOf_positive {n : Int} (hn : 0 < n) (l : List ε) : LastOf n.toNat l (lastOf n l) := by
  rw [lastOf, if_pos hn]
  exact lastOf_drop _ _

end

/-! ## Runs -/

/-- a change of a log -/
inductive Edit (ε : Type) where
  | push (a : ε)
  | clear

/-- what a change does to a log -/
def play (r : Ring ε) : Edit ε → Ring ε
  | .push a => r.push a
  | .clear => r.clear

/-- what a change does to the items pushed since the last clearing -/
def Edit.record (l : List ε) : Edit ε → List ε
  | .push a => l ++ [a]
  | .clear => []

/-- the items pushed since the last clearing -/
def arrivals (edits : List (Edit ε)) : List ε := edits.foldl Edit.record []

section

variable {r : Ring ε} {l : List ε}

/-- **One push.** What a log drops is dropped from the front, and no more than it must. -/
theorem LastOf.push (h : LastOf r.capacity l r.items) (a : ε) : LastOf r.capacity (l ++ [a]) (r.push a).items where
  suffix := by
    obtain ⟨older, hl⟩ := h.suffix
    rw [← hl, List.append_assoc]
    exact (List.drop_suffix _ _).trans (List.suffix_append _ _)
  length := by
    have hlength := h.length
    simp only [Ring.push, List.length_drop, List.length_append, List.length_singleton]
    omega

/-- **One change.** -/
theorem LastOf.play (h : LastOf r.capacity l r.items) (e : Edit ε) :
    (r.play e).capacity = r.capacity ∧ LastOf r.capacity (e.record l) (r.play e).items := by
  cases e with
  | push a => exact ⟨rfl, h.push a⟩
  | clear => exact ⟨rfl, List.suffix_rfl, (Nat.min_zero _).symm⟩

/-- **Runs.** A log goes on holding the last of what has arrived. -/
theorem LastOf.foldl_play (h : LastOf r.capacity l r.items) (edits : List (Edit ε)) :
    LastOf r.capacity (edits.foldl Edit.record l) (edits.foldl Ring.play r).items := by
  induction edits generalizing r l with
  | nil => exact h
  | cons e edits ih =>
    obtain ⟨hcapacity, hnext⟩ := h.play e
    rw [← hcapacity] at hnext ⊢
    exact ih hnext

/-- items pushed one after another -/
theorem LastOf.foldl_push (h : LastOf r.capacity l r.items) (es : List ε) :
    (es.foldl Ring.push r).capacity = r.capacity ∧ LastOf r.capacity (l ++ es) (es.foldl Ring.push r).items := by
  induction es generalizing r l with
  | nil => exact ⟨rfl, by rwa [List.append_nil]⟩
  | cons a es ih =>
    rw [List.append_cons]
    exact ih (h.push a)

theorem lastOf_empty (capacity : Nat) : LastOf capacity [] (empty capacity : Ring ε).items :=
  ⟨List.suffix_rfl, (Nat.min_zero _).symm⟩

end

/-! ## Stamps -/

/-- where stamps never fall, the items before some stamp stand before the others -/
theorem filter_stamps_append {stamp : ε → Int} {l : List ε} (h : l.Pairwise fun a b => stamp a ≤ stamp b) (t : Int) :
    (l.filter fun a => stamp a < t) ++ l.filter (fun a => t ≤ stamp a) = l := by
  induction l with
  | nil => rfl
  | cons a l ih =>
    obtain ⟨hfirst, hrest⟩ := List.pairwise_cons.1 h
    by_cases ht : stamp a < t
    · have hlate : ¬ t ≤ stamp a := Int.not_le.2 ht
      simpa [List.filter_cons, ht, hlate] using ih hrest
    · have hlate : t ≤ stamp a := Int.not_lt.1 ht
      have hnone : (l.filter fun b => stamp b < t) = [] :=
        List.filter_eq_nil_iff.2 fun b hb => by
          have := hfirst b hb
          simp only [decide_eq_true_eq]
          omega
      have hall : l.filter (fun b => t ≤ stamp b) = l :=
        List.filter_eq_self.2 fun b hb => decide_eq_true (hlate.trans (hfirst b hb))
      simp [ht, hlate, hnone, hall]

/-- where stamps never fall, the items from some stamp on are the last ones held -/
theorem since_suffix {r : Ring ε} {stamp : ε → Int} (h : r.items.Pairwise fun a b => stamp a ≤ stamp b) (t : Int) :
    r.since stamp t <:+ r.items := ⟨_, filter_stamps_append h t⟩

end Ring

/-! ## Queries -/

namespace Http

/-- a request for the events from a tick on, at most so many of them, or fifty if it does not say how many -/
structure Asks (q : Request) (tick limit : Int) : Prop where
  path : Route.ofPath? q.path = some .events
  method : q.method = "GET"
  since : (q.query.lookup "since_tick").bind (Decimal.wholeReal? Text.plainDigit?) = some tick
  limit : ((q.query.lookup "limit").map (Decimal.wholeReal? Text.plainDigit?)).getD (some 50) = some limit

theorem Asks.limit_parameter {q : Request} {t n : Int} (h : Asks q t n) :
    parameter q "limit" (Decimal.wholeReal? Text.plainDigit?) (fun n => 1 ≤ n ∧ n ≤ 1000) 50 =
      if 1 ≤ n ∧ n ≤ 1000 then some n else none := by
  have hlimit := h.limit
  unfold parameter
  cases hl : q.query.lookup "limit" with
  | none =>
    rw [hl, Option.map_none, Option.getD_none] at hlimit
    cases hlimit
    rfl
  | some text =>
    rw [hl, Option.map_some, Option.getD_some] at hlimit
    simp only [hlimit, Option.filter_some, decide_eq_true_eq]

/-- how such a request is answered; a tick below zero and a limit out of bounds are refused -/
theorem Asks.respond {q : Request} {t n : Int} (h : Asks q t n) (g : Grammar Float (City.Kind Float) Unit)
    (p : Pacing Float) (m : Manager Float) : respond g p q (some m) = .ok
      (if 0 ≤ t ∧ 1 ≤ n ∧ n ≤ 1000 then .events (Ring.lastOf n (m.events.since (fun e => (e.tick : Int)) t)) else .invalid)
      (some m) := by
  obtain ⟨s, hs, ht⟩ := Option.bind_eq_some_iff.1 h.since
  have hmethod : ¬ Route.events.method ≠ q.method := by rw [h.method]; simp [Route.method]
  have hsince : parameter q "since_tick" (fun s => (Decimal.wholeReal? Text.plainDigit? s).map some) (·.any (0 ≤ ·)) none =
      if 0 ≤ t then some (some t) else none := by
    simp only [parameter, hs, ht, Option.map_some, Option.filter_some, Option.any_some, decide_eq_true_eq]
  simp only [Http.respond, h.path, if_neg hmethod, serve, hsince, h.limit_parameter]
  by_cases htick : 0 ≤ t
  · by_cases hlimit : 1 ≤ n ∧ n ≤ 1000
    · simp only [htick, hlimit, and_self, if_true]
      rfl
    · simp only [htick, hlimit, and_false, if_false, if_true]
  · simp only [htick, false_and, if_false]

end Http

/-- **Logs.** Whatever is pushed into an empty log, and whenever it is cleared:
- it holds the last of the items pushed since it was cleared, as many as its capacity allows;
- asked for a positive number, it answers with that many of its last items; asked for none, with all of them;
- the items from a stamp on are those held with such a stamp, in their order; a positive limit leaves the last of them; they
  are the last items held if the stamps pushed never fall;
- a query for the events of a manager from a tick on gets the last of them up to its limit, if the tick is not below zero
  and the limit is one that a query may have, and is refused otherwise. -/
theorem Ring.recent_items (capacity : Nat) (edits : List (Edit ε)) (stamp : ε → Int) :
    let r := edits.foldl play (.empty capacity)
    LastOf capacity (arrivals edits) r.items ∧
    (∀ n : Int, 0 < n → LastOf n.toNat r.items (r.latest n)) ∧ r.latest 0 = r.items ∧
    (∀ t, r.since stamp t = r.items.filter (fun a => t ≤ stamp a) ∧
      ∀ n : Int, 0 < n → LastOf n.toNat (r.since stamp t) (lastOf n (r.since stamp t))) ∧
    ((arrivals edits).Pairwise (fun a b => stamp a ≤ stamp b) → ∀ t, r.since stamp t <:+ r.items) ∧
    ∀ (g : Grammar Float (City.Kind Float) Unit) (p : Pacing Float) (m : Manager Float) (q : Http.Request)
        (t n : Int), Http.Asks q t n →
      if 0 ≤ t ∧ 1 ≤ n ∧ n ≤ 1000 then
        ∃ es, Http.respond g p q (some m) = .ok (.events es) (some m) ∧
          LastOf n.toNat (m.events.items.filter fun e => t ≤ (e.tick : Int)) es
      else Http.respond g p q (some m) = .ok .invalid (some m) := by
  intro r
  have hitems : LastOf capacity (arrivals edits) r.items := LastOf.foldl_play (r := .empty capacity) (lastOf_empty capacity) edits
  refine ⟨hitems, fun n hn => lastOf_positive hn _, rfl, fun t => ⟨rfl, fun n hn => lastOf_positive hn _⟩,
    fun hstamps t => since_suffix (hstamps.sublist hitems.suffix.sublist) t, fun g rule m q t n hq => ?_⟩
  have hanswer := hq.respond g rule m
  split_ifs with hvalid
  · rw [if_pos hvalid] at hanswer
    exact ⟨_, hanswer, lastOf_positive (Int.lt_of_lt_of_le Int.zero_lt_one hvalid.2.1) _⟩
  · rwa [if_neg hvalid] at hanswer

/-- two clearings, and three pushes after the last into a log for two items -/
def Ring.busy : List (Ring.Edit Nat) := [.push 9, .push 1, .clear, .push 2, .push 3, .push 5]

/-- a manager whose loop has reported one event in each of the first five ticks, in a log for four -/
def Manager.reporting : Manager Float :=
  let event (tick : Nat) : Event Float := ⟨tick, .expanded "park" tick, 1⟩
  let log : Ring (Event Float) := ([0, 1, 2, 3, 4].map event).foldl Ring.push (.empty 4)
  { config := .standard
    world := { World.fresh ⟨fun _ => 0, 0⟩ () with desk := ⟨#[], some (.fresh .standard 0 (some log))⟩ }
    root := 0, snapshot := none, running := false, thread := .absent, tickRate := Config.standard.tickRate }

/-- the last two events from the third tick on are asked for -/
def Http.lastTwo : Http.Request := ⟨"GET", "/api/v1/events", [("limit", "2"), ("since_tick", "2")]⟩

theorem Http.lastTwo_path : Route.ofPath? lastTwo.path = some .events := by
  have hparts : lastTwo.path.splitOn "/" = ["", "api", "v1", "events"] := by
    unfold String.splitOn
    rw [if_neg (by decide)]
    simp +decide only [lastTwo, String.splitOnAux, ↓reduceIte]
  rw [Route.ofPath?, hparts]
  rfl

theorem Ring.recent_items_busy :
    (0 < (1 : Int) ∧ (arrivals busy).Pairwise (fun (a b : Nat) => (a : Int) ≤ b) ∧ Http.Asks Http.lastTwo 2 2) ∧
      ((busy.foldl play (.empty 2)).latest 1 = [5] ∧ (busy.foldl play (.empty 2)).since (fun a => (a : Int)) 4 <:+ [3, 5]) ∧
      ∀ g rule, ∃ es, Http.respond g rule Http.lastTwo (some .reporting) = .ok (.events es) (some .reporting) ∧
        es.map (·.tick) = [3, 4] := by
  have harrivals : (arrivals busy).Pairwise (fun (a b : Nat) => (a : Int) ≤ b) := by decide
  have hasks : Http.Asks Http.lastTwo 2 2 :=
    ⟨Http.lastTwo_path, rfl, by decide +kernel, by decide +kernel⟩
  obtain ⟨-, hlatest, -, -, hsince, hquery⟩ := recent_items 2 busy fun a => (a : Int)
  have hlast := (hlatest 1 Int.one_pos).unique (t := [5]) ⟨by decide, by decide⟩
  refine ⟨⟨Int.one_pos, harrivals, hasks⟩, ⟨hlast, hsince harrivals 4⟩, fun g rule => ?_⟩
  have hanswer := hquery g rule .reporting Http.lastTwo 2 2 hasks
  rw [if_pos (by decide)] at hanswer
  obtain ⟨es, hes, hlast⟩ := hanswer
  refine ⟨es, hes, ?_⟩
  rw [hlast.unique (lastOf_drop _ _)]
  rfl

/-- **Asked for nothing.** A log that holds an item answers with it when it is asked for its last zero items. -/
theorem Ring.latest_zero :
    ¬ ∀ (capacity : Nat) (edits : List (Edit Nat)) (n : Int), 0 ≤ n →
      LastOf n.toNat (edits.foldl play (.empty capacity)).items ((edits.foldl play (.empty capacity)).latest n) := by
  intro h
  have hlength := (h 1 [.push 7] 0 le_rfl).length
  exact absurd hlength (by decide)

end SceneGrammar
