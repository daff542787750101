import QuoteFeed.Arithmetic
import QuoteFeed.Tally

/-! # Growth between snapshots

As long as no counter can wrap, what a tally grows by between two snapshots is at most the number of
events in between. Only a reset makes it less, and without one the growths from snapshot to snapshot
add up to the whole. -/

namespace QuoteFeed.Tally

/-! ## Tallies in use -/

/-- What can be done with a tally. -/
inductive Use
  | count (counter : Counter)
  | reset
  | snapshot
deriving DecidableEq

/-- Uses a tally; also tells the snapshot that is taken, if one is. -/
def use (t : Tally) : Use → List Tally × Tally
  | .count counter => ([], t.bump counter)
  | .reset => ([], {})
  | .snapshot => ([t], t)

def useAll : Tally → List Use → List Tally × Tally
  | t, [] => ([], t)
  | t, use :: uses =>
      let rest := useAll (t.use use).2 uses
      ((t.use use).1 ++ rest.1, rest.2)

theorem useAll_append (t : Tally) (first later : List Use) :
    t.useAll (first ++ later) =
      ((t.useAll first).1 ++ ((t.useAll first).2.useAll later).1,
        ((t.useAll first).2.useAll later).2) := by
  induction first generalizing t with
  | nil => rfl
  | cons use first ih => simp [useAll, ih]

def Use.counter? : Use → Option Counter
  | .count counter => some counter
  | .reset | .snapshot => none

/-- The events that are counted, oldest first. -/
def events (uses : List Use) : List Counter :=
  uses.filterMap Use.counter?

theorem events_append (first later : List Use) :
    events (first ++ later) = events first ++ events later :=
  List.filterMap_append ..

theorem events_cons (use : Use) (uses : List Use) :
    events (use :: uses) = events [use] ++ events uses :=
  events_append [use] uses

/-! ## Counting without wrapping -/

/-- The events can be counted as well before any counter wraps. -/
def Room (t : Tally) (events : List Counter) : Prop :=
  ∀ c, (t.get c).toNat + events.count c < 2 ^ 64

/-- What became of a tally, by its use. -/
structure Grown (t : Tally) (uses : List Use) (now : Tally) : Prop where
  le : ∀ c, (now.get c).toNat ≤ (t.get c).toNat + (events uses).count c
  eq : .reset ∉ uses → ∀ c, (now.get c).toNat = (t.get c).toNat + (events uses).count c

variable {t now : Tally}

theorem toNat_get_bump {counter : Counter} (h : t.Room [counter]) (c : Counter) :
    ((t.bump counter).get c).toNat = (t.get c).toNat + [counter].count c := by
  have hroom := h c
  rw [get_bump]
  by_cases hc : counter = c
  · rw [hc, List.count_singleton_self] at hroom ⊢
    rw [if_pos rfl, UInt64.toNat_add, UInt64.toNat_one, Nat.mod_eq_of_lt hroom]
  · rw [if_neg hc, List.count_singleton, if_neg (by simpa using hc), Nat.add_zero]

theorem grown_use {use : Use} (h : t.Room (events [use])) : Grown t [use] (t.use use).2 := by
  cases use with
  | count counter =>
      have hbump : ∀ c, ((t.bump counter).get c).toNat = (t.get c).toNat + [counter].count c :=
        toNat_get_bump h
      exact ⟨fun c => Nat.le_of_eq (hbump c), fun _ => hbump⟩
  | reset =>
      constructor
      · intro c
        cases c <;> exact Nat.zero_le _
      · intro hreset
        exact absurd (List.mem_singleton_self _) hreset
  | snapshot => exact ⟨fun c => Nat.le_refl _, fun _ c => rfl⟩

theorem Grown.trans {later : Tally} {uses uses' : List Use} (h : Grown t uses now)
    (h' : Grown now uses' later) : Grown t (uses ++ uses') later := by
  constructor
  case le =>
    intro c
    have hle := h.le c
    have hle' := h'.le c
    rw [events_append, List.count_append]
    omega
  case eq =>
    intro hreset c
    rw [List.mem_append, not_or] at hreset
    rw [h'.eq hreset.2, h.eq hreset.1, events_append, List.count_append, Nat.add_assoc]

theorem room_empty {events : List Counter} (h : events.length < 2 ^ 64) : Room {} events := by
  intro c
  have hzero : ((({} : Tally).get c).toNat) = 0 := by cases c <;> rfl
  rw [hzero, Nat.zero_add]
  exact Nat.lt_of_le_of_lt List.count_le_length h

namespace Room

variable {before after : List Counter}

theorem left (h : t.Room (before ++ after)) : t.Room before := by
  intro c
  have hroom := h c
  rw [List.count_append] at hroom
  omega

theorem right {uses : List Use} (h : t.Room (events uses ++ after)) (hgrown : Grown t uses now) :
    now.Room after := by
  intro c
  have hroom := h c
  have hle := hgrown.le c
  rw [List.count_append] at hroom
  omega

end Room

theorem grown_useAll {uses : List Use} (h : t.Room (events uses)) :
    Grown t uses (t.useAll uses).2 := by
  induction uses generalizing t with
  | nil => exact ⟨fun c => Nat.le_refl _, fun _ c => rfl⟩
  | cons use uses ih =>
      rw [events_cons] at h
      have hgrown := grown_use h.left
      exact hgrown.trans (ih (h.right hgrown))

/-! ## From snapshot to snapshot -/

/-- The growths of a counter from each tally to the next, added up. -/
def grownBy (c : Counter) : Tally → List Tally → Nat
  | _, [] => 0
  | earlier, now :: later => ((now.since earlier).get c).toNat + grownBy c now later

theorem toNat_get_since (now earlier : Tally) (c : Counter) :
    ((now.since earlier).get c).toNat = (now.get c).toNat - (earlier.get c).toNat := by
  rw [get_since, toNat_growth]

theorem grownBy_cons (c : Counter) (earlier now : Tally) (later : List Tally) :
    grownBy c earlier (now :: later) =
      (now.get c).toNat - (earlier.get c).toNat + grownBy c now later := by
  rw [grownBy, toNat_get_since]

/-- Without a reset, the growths from the last snapshot on add up to the growth until now. -/
theorem grownBy_useAll {uses : List Use} (c : Counter) {earlier : Tally}
    (hearlier : (earlier.get c).toNat ≤ (t.get c).toNat) (hreset : .reset ∉ uses)
    (h : t.Room (events uses)) :
    grownBy c earlier ((t.useAll uses).1 ++ [(t.useAll uses).2]) =
      ((t.useAll uses).2.get c).toNat - (earlier.get c).toNat := by
  induction uses generalizing t earlier with
  | nil => exact grownBy_cons c earlier t []
  | cons use uses ih =>
      rw [events_cons] at h
      have hgrown := grown_use h.left
      have hrest := h.right hgrown
      rw [List.mem_cons, not_or] at hreset
      cases use with
      | count counter =>
          have hnow := hgrown.eq (by simp) c
          have hle : (earlier.get c).toNat ≤ ((t.use (.count counter)).2.get c).toNat := by omega
          exact ih hle hreset.2 hrest
      | reset => exact absurd rfl hreset.1
      | snapshot =>
          have hlater : grownBy c t ((t.useAll uses).1 ++ [(t.useAll uses).2]) = _ :=
            ih (Nat.le_refl _) hreset.2 hrest
          have hnow : ((t.useAll uses).2.get c).toNat = _ := (grown_useAll hrest).eq hreset.2 c
          change grownBy c earlier (t :: ((t.useAll uses).1 ++ [(t.useAll uses).2])) =
            ((t.useAll uses).2.get c).toNat - (earlier.get c).toNat
          have hgrew : (t.get c).toNat ≤ ((t.useAll uses).2.get c).toNat := by
            rw [hnow]
            exact Nat.le_add_right ..
          rw [grownBy_cons, hlater]
          omega

/-- Two of the snapshots that are taken of a tally, in their order. -/
structure Span where
  before : List Use
  between : List Use
  later : List Use

namespace Span

def uses (span : Span) : List Use :=
  span.before ++ .snapshot :: (span.between ++ .snapshot :: span.later)

/-- The first of the two. -/
def first (span : Span) : Tally :=
  (useAll {} span.before).2

def last (span : Span) : Tally :=
  (span.first.useAll span.between).2

/-- The snapshots between the two. -/
def inner (span : Span) : List Tally :=
  (span.first.useAll span.between).1

/-- What the growth from the first snapshot to the last tells about the events in between. -/
structure GrowthSpec (span : Span) : Prop where
  /-- They are snapshots that are taken, one after the other. -/
  taken : (useAll {} span.uses).1 =
    (useAll {} span.before).1 ++ span.first :: (span.inner ++ span.last ::
      (span.last.useAll span.later).1)
  le : ∀ c, ((span.last.since span.first).get c).toNat ≤ (events span.between).count c
  eq : .reset ∉ span.between →
    ∀ c, ((span.last.since span.first).get c).toNat = (events span.between).count c
  add : .reset ∉ span.between → ∀ c,
    grownBy c span.first (span.inner ++ [span.last]) =
      ((span.last.since span.first).get c).toNat

theorem snapshots_uses (span : Span) :
    (useAll {} span.uses).1 =
      (useAll {} span.before).1 ++ span.first :: (span.inner ++ span.last ::
        (span.last.useAll span.later).1) := by
  have hbetween := useAll_append span.first span.between (.snapshot :: span.later)
  rw [uses, useAll_append]
  change _ ++ span.first :: (span.first.useAll (span.between ++ .snapshot :: span.later)).1 = _
  rw [hbetween]
  rfl

theorem events_uses (span : Span) :
    events span.uses = events span.before ++ (events span.between ++ events span.later) := by
  rw [uses, events_append]
  change _ ++ events (span.between ++ .snapshot :: span.later) = _
  rw [events_append]
  rfl

/-- Fewer events are counted than a word has values. -/
theorem growthSpec {span : Span} (h : (events span.uses).length < 2 ^ 64) : span.GrowthSpec := by
  have hroom := room_empty h
  rw [events_uses] at hroom
  have hfirst := grown_useAll hroom.left
  have hrest := hroom.right hfirst
  have hlast := grown_useAll hrest.left
  constructor
  case taken => exact span.snapshots_uses
  case le =>
    intro c
    have hle : (span.last.get c).toNat ≤ _ := hlast.le c
    rw [toNat_get_since]
    exact Nat.sub_le_iff_le_add'.mpr hle
  case eq =>
    intro hreset c
    have heq : (span.last.get c).toNat = _ := hlast.eq hreset c
    rw [toNat_get_since, heq]
    exact Nat.add_sub_cancel_left ..
  case add =>
    intro hreset c
    rw [toNat_get_since]
    exact grownBy_useAll c (Nat.le_refl _) hreset hrest.left

/-- After a reset, one of four packets shows, and no counter that went back seems to have grown. -/
theorem growthSpec_reset :
    let span : Span := {
      before := [.count .received, .count .received, .count .dropped]
      between := [.count .received, .reset, .count .received, .count .received, .count .received]
      later := [] }
    (events span.uses).length < 2 ^ 64 ∧
      span.last.since span.first = { received := 1 } ∧
      (events span.between).count .received = 4 ∧ span.GrowthSpec :=
  ⟨by decide, by decide, by decide, growthSpec (by decide)⟩

end Span

end QuoteFeed.Tally
