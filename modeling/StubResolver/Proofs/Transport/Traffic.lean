import StubResolver.Proofs.Transport.Pools

/-!
# Many queries on one transport

Queries start, go on and end in any order, and each takes its socket from the pool
that all share. A socket comes back to the pool from the query that was answered on
it; in all other cases it is given up. What holds of the pool and the queries under
way holds for all ways in which their steps may be interleaved: it is kept by each
step.
-/

namespace StubResolver

/-- Idle sockets in rows. A query takes one from
the row of its server, and returns it there. -/
structure Pooling (π κ ι : Type) where
  empty : π
  idle : π → κ → List ι
  take : π → κ → Option ι × π
  put : π → κ → ι → π
  fits : κ → ι → Prop
  goesOn : Bool
  idle_empty : ∀ row, idle empty row = []
  idle_take : ∀ pool row,
    idle pool row = (take pool row).1.toList ++ idle (take pool row).2 row
  idle_take_none : ∀ pool row, (take pool row).1 = none → idle pool row = []
  idle_take_of_ne : ∀ pool row other, other ≠ row → idle (take pool row).2 other = idle pool other
  idle_put : ∀ pool row socket, fits row socket →
    idle (put pool row socket) row = socket :: idle pool row
  idle_put_of_ne : ∀ pool row other socket, fits row socket → other ≠ row →
    idle (put pool row socket) other = idle pool other

/-- How far a query has come: a socket is being opened for
it, or it has one, which may have been idle before. -/
inductive Stage (ι : Type) where
  | opening
  | sending (socket : ι) (reused : Bool)

namespace Stage

variable {ι : Type}

def ofTaken : Option ι → Stage ι
  | none => opening
  | some socket => sending socket true

def socket? : Stage ι → Option ι
  | opening => none
  | sending socket _ => some socket

def isReused : Stage ι → Bool
  | opening => false
  | sending _ reused => reused

@[simp] theorem socket?_ofTaken (taken : Option ι) : (ofTaken taken).socket? = taken := by
  cases taken <;> rfl

end Stage

structure Flight (κ ι : Type) where
  row : κ
  stage : Stage ι

inductive Mishap where
  | failed
  | timedOut
  | canceled

inductive TrafficEvent (κ ι : Type) where
  | started (row : κ)
  | opened (row : κ) (socket : ι)
  | answered (row : κ) (socket : ι)
  /-- An idle socket was of no use, and the query goes on with another. -/
  | wentOn (row : κ) (socket : ι)
  | ended (why : Mishap) (row : κ) (stage : Stage ι)

def TrafficEvent.lost? {κ ι : Type} : TrafficEvent κ ι → Option ι
  | started _ | opened _ _ | answered _ _ => none
  | wentOn _ socket => some socket
  | ended _ _ stage => stage.socket?

structure Traffic (π κ ι : Type) where
  pool : π
  flights : List (Flight κ ι)
  /-- All sockets that were ever opened. -/
  opened : List ι

namespace Traffic

variable {π κ ι : Type}

def start (P : Pooling π κ ι) : Traffic π κ ι := ⟨P.empty, [], []⟩

def inFlight [DecidableEq κ] (s : Traffic π κ ι) (row : κ) : Nat :=
  s.flights.countP fun flight => flight.row = row

def users [DecidableEq ι] (s : Traffic π κ ι) (socket : ι) : Nat :=
  s.flights.countP fun flight => flight.stage.socket? = some socket

def taking (s : Traffic π κ ι) (P : Pooling π κ ι) (row : κ) (before after : List (Flight κ ι)) :
    Traffic π κ ι :=
  let taken := P.take s.pool row
  ⟨taken.2, before ++ ⟨row, .ofTaken taken.1⟩ :: after, s.opened⟩

theorem taking_of_take {P : Pooling π κ ι} {s : Traffic π κ ι} {row : κ} {taken : Option ι}
    {rest : π} (htaken : P.take s.pool row = (taken, rest)) (before after : List (Flight κ ι)) :
    s.taking P row before after = ⟨rest, before ++ ⟨row, .ofTaken taken⟩ :: after, s.opened⟩ := by
  unfold taking
  rw [htaken]

inductive Step (P : Pooling π κ ι) :
    Traffic π κ ι → TrafficEvent κ ι → Traffic π κ ι → Prop where
  | start (s : Traffic π κ ι) (row : κ) : Step P s (.started row) (s.taking P row s.flights [])
  | opens {s : Traffic π κ ι} {row : κ} {socket : ι} (before after : List (Flight κ ι))
      (underWay : s.flights = before ++ ⟨row, .opening⟩ :: after) (fits : P.fits row socket)
      (new : socket ∉ s.opened) :
      Step P s (.opened row socket)
        ⟨s.pool, before ++ ⟨row, .sending socket false⟩ :: after, socket :: s.opened⟩
  | answer {s : Traffic π κ ι} {row : κ} {socket : ι} {reused : Bool}
      (before after : List (Flight κ ι))
      (underWay : s.flights = before ++ ⟨row, .sending socket reused⟩ :: after) :
      Step P s (.answered row socket) ⟨P.put s.pool row socket, before ++ after, s.opened⟩
  | goOn {s : Traffic π κ ι} {row : κ} {socket : ι} (before after : List (Flight κ ι))
      (goesOn : P.goesOn = true)
      (underWay : s.flights = before ++ ⟨row, .sending socket true⟩ :: after) :
      Step P s (.wentOn row socket) (s.taking P row before after)
  | giveUp {s : Traffic π κ ι} {row : κ} {stage : Stage ι} (why : Mishap)
      (before after : List (Flight κ ι)) (underWay : s.flights = before ++ ⟨row, stage⟩ :: after)
      (final : why = .failed → P.goesOn = true → stage.isReused = false) :
      Step P s (.ended why row stage) ⟨s.pool, before ++ after, s.opened⟩

/-- Steps one after the other, with what was there after each, the last in front. -/
inductive Run (P : Pooling π κ ι) (first : Traffic π κ ι) :
    List (TrafficEvent κ ι × Traffic π κ ι) → Traffic π κ ι → Prop where
  | nil : Run P first [] first
  | step {history : List (TrafficEvent κ ι × Traffic π κ ι)} {s s' : Traffic π κ ι}
      {event : TrafficEvent κ ι} (run : Run P first history s) (step : Step P s event s') :
      Run P first ((event, s') :: history) s'

theorem Run.append {P : Pooling π κ ι} {s₁ s₂ s₃ : Traffic π κ ι}
    {earlier later : List (TrafficEvent κ ι × Traffic π κ ι)} (h : Run P s₁ earlier s₂)
    (h' : Run P s₂ later s₃) : Run P s₁ (later ++ earlier) s₃ := by
  induction h' with
  | nil => exact h
  | step _ hstep ih => exact ih.step hstep

def peak [DecidableEq κ] (row : κ) (history : List (TrafficEvent κ ι × Traffic π κ ι)) : Nat :=
  (history.map fun x => x.2.inFlight row).foldr max 0

variable {P : Pooling π κ ι} {s s' : Traffic π κ ι} {before after : List (Flight κ ι)}
  {flight : Flight κ ι} {event : TrafficEvent κ ι} {row : κ} {stage : Stage ι} {socket c : ι}
  {history : List (TrafficEvent κ ι × Traffic π κ ι)}

theorem countP_insert {α : Type} (p : α → Bool) (before after : List α) (x : α) :
    (before ++ x :: after).countP p = (before ++ after).countP p + if p x then 1 else 0 := by
  rw [List.countP_append, List.countP_cons, List.countP_append, Nat.add_assoc]

/-! ## Idle sockets -/

theorem mem_idle_of_taken {pool : π} (h : (P.take pool row).1 = some socket) :
    socket ∈ P.idle pool row := by
  rw [P.idle_take pool row, h]
  exact List.mem_append_left _ (List.mem_singleton_self socket)

theorem mem_idle_of_mem_rest {pool : π} {other : κ}
    (h : socket ∈ P.idle (P.take pool row).2 other) : socket ∈ P.idle pool other := by
  by_cases hother : other = row
  · subst hother
    rw [P.idle_take pool other]
    exact List.mem_append_right _ h
  · rwa [P.idle_take_of_ne pool row other hother] at h

theorem mem_idle_put {pool : π} {other : κ} (hfits : P.fits row socket)
    (h : c ∈ P.idle (P.put pool row socket) other) :
    c = socket ∧ other = row ∨ c ∈ P.idle pool other := by
  by_cases hother : other = row
  · subst hother
    rw [P.idle_put pool other socket hfits] at h
    exact (List.mem_cons.1 h).imp_left fun hc => ⟨hc, rfl⟩
  · rw [P.idle_put_of_ne pool row other socket hfits hother] at h
    exact .inr h

section

variable [DecidableEq ι]

theorem count_idle_take (pool : π) (row : κ) (socket : ι) :
    (P.idle pool row).count socket =
      (P.idle (P.take pool row).2 row).count socket +
        if (P.take pool row).1 = some socket then 1 else 0 := by
  rw [P.idle_take pool row, List.count_append, Nat.add_comm]
  cases (P.take pool row).1 with
  | none => rfl
  | some found => simp [List.count_singleton]

/-! ## Every socket is in one place -/

def Absent (P : Pooling π κ ι) (s : Traffic π κ ι) (socket : ι) : Prop :=
  s.users socket = 0 ∧ ∀ row, socket ∉ P.idle s.pool row

structure Sound (P : Pooling π κ ι) (s : Traffic π κ ι) : Prop where
  once : ∀ row socket, (P.idle s.pool row).count socket + s.users socket ≤ 1
  apart : ∀ row other socket,
    socket ∈ P.idle s.pool row → socket ∈ P.idle s.pool other → row = other
  idle : ∀ row, ∀ socket ∈ P.idle s.pool row, socket ∈ s.opened ∧ P.fits row socket
  used : ∀ flight ∈ s.flights, ∀ socket, flight.stage.socket? = some socket →
    socket ∈ s.opened ∧ P.fits flight.row socket

/-- The socket is not there any more, and cannot be opened again. -/
def Gone (P : Pooling π κ ι) (s : Traffic π κ ι) (socket : ι) : Prop :=
  socket ∈ s.opened ∧ s.Absent P socket

theorem sound_start (P : Pooling π κ ι) : (start P).Sound P where
  once row socket := by simp [start, users, P.idle_empty]
  apart row other socket h := by simp [start, P.idle_empty] at h
  idle row socket h := by simp [start, P.idle_empty] at h
  used flight h := by simp [start] at h

theorem Sound.users_eq_zero (h : s.Sound P) (hidle : socket ∈ P.idle s.pool row) :
    s.users socket = 0 := by
  have hcount := List.count_pos_iff.2 hidle
  have honce := h.once row socket
  omega

theorem Sound.absent_of_new (h : s.Sound P) (hnew : socket ∉ s.opened) : s.Absent P socket := by
  refine ⟨List.countP_eq_zero.2 fun flight hflight hsocket => ?_, fun row hidle => ?_⟩
  · exact hnew (h.used flight hflight socket (of_decide_eq_true hsocket)).1
  · exact hnew (h.idle row socket hidle).1

theorem users_of_flights (hflights : s.flights = before ++ flight :: after) (pool : π)
    (opened : List ι) (socket : ι) :
    s.users socket = users ⟨pool, before ++ after, opened⟩ socket +
      if flight.stage.socket? = some socket then 1 else 0 := by
  unfold users
  rw [hflights, countP_insert]
  simp only [decide_eq_true_eq]

theorem users_of_flights_self (hflights : s.flights = before ++ flight :: after)
    (hsocket : flight.stage.socket? = some socket) (pool : π) (opened : List ι) :
    s.users socket = users ⟨pool, before ++ after, opened⟩ socket + 1 := by
  rw [users_of_flights hflights pool opened, if_pos hsocket]

/-! ### A query ends -/

theorem users_removed_le (hflights : s.flights = before ++ flight :: after) (socket : ι) :
    users ⟨s.pool, before ++ after, s.opened⟩ socket ≤ s.users socket := by
  rw [users_of_flights hflights s.pool s.opened]
  exact Nat.le_add_right _ _

theorem Sound.removed (h : s.Sound P) (hflights : s.flights = before ++ flight :: after) :
    Sound P ⟨s.pool, before ++ after, s.opened⟩ where
  once row socket :=
    Nat.le_trans (Nat.add_le_add_left (users_removed_le hflights socket) _) (h.once row socket)
  apart := h.apart
  idle := h.idle
  used other hother := by
    refine h.used other ?_
    rw [hflights]
    exact (List.mem_append.1 hother).elim (List.mem_append_left _) fun hafter =>
      List.mem_append_right _ (List.mem_cons_of_mem _ hafter)

theorem Gone.removed (h : s.Gone P c) (hflights : s.flights = before ++ flight :: after) :
    Gone P ⟨s.pool, before ++ after, s.opened⟩ c :=
  ⟨h.1, Nat.le_zero.1 (h.2.1 ▸ users_removed_le hflights c), h.2.2⟩

theorem Sound.gone_removed (h : s.Sound P) (hflights : s.flights = before ++ flight :: after)
    (hsocket : flight.stage.socket? = some socket) :
    Gone P ⟨s.pool, before ++ after, s.opened⟩ socket := by
  have husers := users_of_flights_self hflights hsocket s.pool s.opened
  have hmem : flight ∈ s.flights := hflights ▸ List.mem_append_right _ List.mem_cons_self
  refine ⟨(h.used flight hmem socket hsocket).1, ?_, fun row hidle => ?_⟩
  · have honce := h.once flight.row socket
    omega
  · have hnone := h.users_eq_zero hidle
    omega

/-! ### A query is given an idle socket -/

theorem users_taking (hflights : s.flights = before ++ after) (row : κ) (socket : ι) :
    (s.taking P row before after).users socket =
      s.users socket + if (P.take s.pool row).1 = some socket then 1 else 0 := by
  rw [users_of_flights (s := s.taking P row before after) rfl s.pool s.opened, ← hflights]
  simp only [Stage.socket?_ofTaken]

theorem Absent.taking (h : s.Absent P c) (hflights : s.flights = before ++ after) (row : κ) :
    (s.taking P row before after).Absent P c := by
  obtain ⟨hunused, hidle⟩ := h
  refine ⟨?_, fun other hmem => hidle other (mem_idle_of_mem_rest hmem)⟩
  rw [users_taking hflights, hunused, if_neg fun htaken => hidle row (mem_idle_of_taken htaken)]

theorem Sound.taking (h : s.Sound P) (hflights : s.flights = before ++ after) (row : κ) :
    (s.taking P row before after).Sound P where
  once other socket := by
    rw [users_taking hflights]
    by_cases hother : other = row
    · have honce := h.once row socket
      rw [count_idle_take] at honce
      subst hother
      dsimp only [Traffic.taking]
      omega
    · have honce := h.once other socket
      dsimp only [Traffic.taking]
      rw [P.idle_take_of_ne s.pool row other hother]
      split
      next htaken =>
        -- What lies in one row lies in no other.
        have hidle := mem_idle_of_taken htaken
        have hunused := h.users_eq_zero hidle
        have hnone := List.count_eq_zero.2 fun hmem => hother (h.apart other row socket hmem hidle)
        omega
      next => exact honce
  apart one other socket hone hother :=
    h.apart one other socket (mem_idle_of_mem_rest hone) (mem_idle_of_mem_rest hother)
  idle other socket hidle := h.idle other socket (mem_idle_of_mem_rest hidle)
  used flight hflight socket hsocket := by
    rcases List.mem_append.1 hflight with hbefore | hrest
    · exact h.used flight (hflights ▸ List.mem_append_left _ hbefore) socket hsocket
    · rcases List.mem_cons.1 hrest with rfl | hafter
      · rw [Stage.socket?_ofTaken] at hsocket
        exact h.idle row socket (mem_idle_of_taken hsocket)
      · exact h.used flight (hflights ▸ List.mem_append_right _ hafter) socket hsocket

/-! ### A socket is opened -/

theorem users_opened (hflights : s.flights = before ++ after) (row : κ) (new c : ι) :
    users ⟨s.pool, before ++ ⟨row, .sending new false⟩ :: after, new :: s.opened⟩ c =
      s.users c + if new = c then 1 else 0 := by
  rw [users_of_flights (s := ⟨s.pool, _, new :: s.opened⟩) rfl s.pool s.opened, ← hflights]
  simp only [Stage.socket?, Option.some.injEq]

theorem Sound.opened (h : s.Sound P) (hflights : s.flights = before ++ after)
    (hfits : P.fits row socket) (hnew : socket ∉ s.opened) :
    Sound P ⟨s.pool, before ++ ⟨row, .sending socket false⟩ :: after, socket :: s.opened⟩ where
  once other c := by
    rw [users_opened hflights]
    split
    next heq =>
      subst heq
      obtain ⟨hunused, hidle⟩ := h.absent_of_new hnew
      have hnone := List.count_eq_zero.2 (hidle other)
      change (P.idle s.pool other).count socket + (s.users socket + 1) ≤ 1
      omega
    next => exact h.once other c
  apart := h.apart
  idle other c hidle := (h.idle other c hidle).imp_left (List.mem_cons_of_mem socket)
  used flight hflight c hc := by
    rcases List.mem_append.1 hflight with hbefore | hrest
    · exact (h.used flight (hflights ▸ List.mem_append_left _ hbefore) c hc).imp_left
        (List.mem_cons_of_mem socket)
    · rcases List.mem_cons.1 hrest with rfl | hafter
      · cases hc
        exact ⟨List.mem_cons_self, hfits⟩
      · exact (h.used flight (hflights ▸ List.mem_append_right _ hafter) c hc).imp_left
          (List.mem_cons_of_mem socket)

theorem Gone.opened (h : s.Gone P c) (hflights : s.flights = before ++ after)
    (hnew : socket ∉ s.opened) :
    Gone P ⟨s.pool, before ++ ⟨row, .sending socket false⟩ :: after, socket :: s.opened⟩ c := by
  obtain ⟨hopened, hunused, hidle⟩ := h
  refine ⟨List.mem_cons_of_mem socket hopened, ?_, hidle⟩
  rw [users_opened hflights, hunused, if_neg fun heq : socket = c => hnew (heq ▸ hopened)]

/-! ### A socket is returned -/

theorem Sound.returned (h : s.Sound P) (hfits : P.fits row socket) (hgone : s.Gone P socket) :
    Sound P ⟨P.put s.pool row socket, s.flights, s.opened⟩ := by
  obtain ⟨hopened, hunused, hnone⟩ := hgone
  refine ⟨fun other c => ?_, fun one other c hone hother => ?_, fun other c hidle => ?_, h.used⟩
  · have honce := h.once other c
    by_cases hother : other = row
    · subst hother
      dsimp only
      rw [P.idle_put s.pool other socket hfits, List.count_cons]
      split
      next heq =>
        obtain rfl := eq_of_beq heq
        change _ + s.users socket ≤ 1
        have hzero := List.count_eq_zero.2 (hnone other)
        omega
      next => exact honce
    · dsimp only
      rwa [P.idle_put_of_ne s.pool row other socket hfits hother]
  · rcases mem_idle_put hfits hone, mem_idle_put hfits hother with
      ⟨⟨rfl, rfl⟩ | hone', ⟨heq, rfl⟩ | hother'⟩
    · rfl
    · exact absurd hother' (hnone other)
    · exact absurd (heq ▸ hone') (hnone one)
    · exact h.apart one other c hone' hother'
  · rcases mem_idle_put hfits hidle with ⟨rfl, rfl⟩ | hidle'
    · exact ⟨hopened, hfits⟩
    · exact h.idle other c hidle'

theorem Gone.returned (h : s.Gone P c) (hfits : P.fits row socket) (hne : c ≠ socket) :
    Gone P ⟨P.put s.pool row socket, s.flights, s.opened⟩ c := by
  refine ⟨h.1, h.2.1, fun other hidle => ?_⟩
  rcases mem_idle_put hfits hidle with ⟨heq, -⟩ | hidle'
  · exact hne heq
  · exact h.2.2 other hidle'

/-! ### Steps -/

theorem Step.sound (h : Step P s event s') (hs : s.Sound P) : s'.Sound P := by
  cases h with
  | start row => exact hs.taking (List.append_nil s.flights).symm row
  | opens before after underWay fits new => exact (hs.removed underWay).opened rfl fits new
  | answer before after underWay =>
      -- With the only query that used it, the socket is gone, and so it is idle only once.
      have hfits := (hs.used _ (underWay ▸ List.mem_append_right _ List.mem_cons_self) _ rfl).2
      exact (hs.removed underWay).returned hfits (hs.gone_removed underWay rfl)
  | goOn before after goesOn underWay => exact (hs.removed underWay).taking rfl _
  | giveUp why before after underWay final => exact hs.removed underWay

theorem Step.gone (h : Step P s event s') (hs : s.Sound P) (hgone : s.Gone P c) :
    s'.Gone P c := by
  cases h with
  | start row => exact ⟨hgone.1, hgone.2.taking (List.append_nil s.flights).symm row⟩
  | opens before after underWay fits new => exact (hgone.removed underWay).opened rfl new
  | @answer row socket _ before after underWay =>
      have hfits := (hs.used _ (underWay ▸ List.mem_append_right _ List.mem_cons_self) _ rfl).2
      refine (hgone.removed underWay).returned hfits fun heq => ?_
      have hused := users_of_flights_self underWay rfl s.pool s.opened
      rw [← heq, hgone.2.1] at hused
      cases hused
  | goOn before after goesOn underWay =>
      exact ⟨hgone.1, (hgone.removed underWay).2.taking rfl _⟩
  | giveUp why before after underWay final => exact hgone.removed underWay

theorem Step.gone_of_lost (h : Step P s event s') (hs : s.Sound P)
    (hlost : event.lost? = some c) : s'.Gone P c := by
  cases h with
  | start | opens | answer => cases hlost
  | goOn before after goesOn underWay =>
      cases hlost
      have hgone := hs.gone_removed underWay rfl
      exact ⟨hgone.1, hgone.2.taking rfl _⟩
  | giveUp why before after underWay final => exact hs.gone_removed underWay hlost

end

/-! ## How many there are -/

section

variable [DecidableEq κ]

def total (s : Traffic π κ ι) (P : Pooling π κ ι) (row : κ) : Nat :=
  (P.idle s.pool row).length + s.inFlight row

theorem inFlight_of_flights (hflights : s.flights = before ++ flight :: after) (pool : π)
    (opened : List ι) (row : κ) :
    s.inFlight row = inFlight ⟨pool, before ++ after, opened⟩ row +
      if flight.row = row then 1 else 0 := by
  unfold inFlight
  rw [hflights, countP_insert]
  simp only [decide_eq_true_eq]

theorem total_removed (hflights : s.flights = before ++ flight :: after) (row : κ) :
    s.total P row = total ⟨s.pool, before ++ after, s.opened⟩ P row +
      if flight.row = row then 1 else 0 := by
  unfold total
  rw [inFlight_of_flights hflights s.pool s.opened, Nat.add_assoc]

theorem total_taking_le (hflights : s.flights = before ++ after) (row other : κ) :
    (s.taking P row before after).total P other ≤
      max (s.total P other) ((s.taking P row before after).inFlight other) := by
  have hinFlight := inFlight_of_flights (s := s.taking P row before after) rfl s.pool s.opened other
  rw [← hflights] at hinFlight
  change _ = s.inFlight other + _ at hinFlight
  unfold total
  by_cases hother : other = row
  · subst hother
    rw [if_pos rfl] at hinFlight
    have hidle := congrArg List.length (P.idle_take s.pool other)
    have hnone := P.idle_take_none s.pool other
    rw [List.length_append] at hidle
    dsimp only [Traffic.taking] at hinFlight ⊢
    cases htaken : (P.take s.pool other).1 with
    | none =>
        rw [hnone htaken, htaken] at hidle
        simp only [List.length_nil, Option.toList_none] at hidle
        exact Nat.le_trans (by omega) (Nat.le_max_right _ _)
    | some socket =>
        rw [htaken] at hidle
        simp only [Option.toList_some, List.length_singleton] at hidle
        rw [htaken] at hinFlight
        exact Nat.le_trans (by omega) (Nat.le_max_left _ _)
  · rw [if_neg fun h : row = other => hother h.symm] at hinFlight
    have hidle : P.idle (s.taking P row before after).pool other = P.idle s.pool other :=
      P.idle_take_of_ne s.pool row other hother
    rw [hidle, hinFlight]
    exact Nat.le_max_left _ _

theorem Step.total_le [DecidableEq ι] (h : Step P s event s') (hs : s.Sound P) (row : κ) :
    s'.total P row ≤ max (s.total P row) (s'.inFlight row) := by
  cases h with
  | start row' => exact total_taking_le (List.append_nil s.flights).symm row' row
  | opens before after underWay =>
      refine Nat.le_trans (Nat.le_of_eq ?_) (Nat.le_max_left _ _)
      rw [total_removed underWay, total_removed rfl]
      rfl
  | @answer row' socket _ before after underWay =>
      have hfits := (hs.used _ (underWay ▸ List.mem_append_right _ List.mem_cons_self) _ rfl).2
      refine Nat.le_trans (Nat.le_of_eq ?_) (Nat.le_max_left _ _)
      rw [total_removed underWay]
      unfold total
      by_cases hrow : row' = row
      · subst hrow
        dsimp only
        rw [P.idle_put s.pool row' socket hfits, if_pos rfl, List.length_cons]
        exact Nat.add_right_comm _ 1 _
      · dsimp only
        rw [P.idle_put_of_ne s.pool row' row socket hfits fun h => hrow h.symm, if_neg hrow]
        rfl
  | @goOn row' _ before after goesOn underWay =>
      refine Nat.le_trans (total_taking_le (s := ⟨s.pool, before ++ after, s.opened⟩) rfl row' row)
        (Nat.max_le.2 ⟨?_, Nat.le_max_right _ _⟩)
      rw [total_removed underWay]
      exact Nat.le_trans (Nat.le_add_right _ _) (Nat.le_max_left _ _)
  | giveUp why before after underWay final =>
      rw [total_removed underWay]
      exact Nat.le_trans (Nat.le_add_right _ _) (Nat.le_max_left _ _)

end

/-! ## Runs -/

section

variable [DecidableEq ι]

theorem Run.sound (h : Run P (start P) history s) : s.Sound P := by
  induction h with
  | nil => exact sound_start P
  | step _ hstep ih => exact hstep.sound ih

theorem Run.gone (h : Run P (start P) history s) :
    ∀ x ∈ history, ∀ socket, x.1.lost? = some socket → s.Gone P socket := by
  -- What a step gives up is gone after it, and what was gone before stays so.
  induction h with
  | nil => simp
  | @step history s s' event hrun hstep ih =>
      intro x hx socket hlost
      rcases List.mem_cons.1 hx with rfl | hx
      · exact hstep.gone_of_lost hrun.sound hlost
      · exact hstep.gone hrun.sound (ih x hx socket hlost)

theorem Run.total_le [DecidableEq κ] (h : Run P (start P) history s) (row : κ) :
    s.total P row ≤ peak row history := by
  induction h with
  | nil => simp [total, inFlight, start, P.idle_empty]
  | @step history s s' event hrun hstep ih =>
      calc
        s'.total P row ≤ max (s.total P row) (s'.inFlight row) := hstep.total_le hrun.sound row
        _ ≤ max (peak row history) (s'.inFlight row) :=
          Nat.max_le.2 ⟨Nat.le_trans ih (Nat.le_max_left _ _), Nat.le_max_right _ _⟩
        _ = peak row ((event, s') :: history) := Nat.max_comm _ _

/-- How the pool and the queries under way are after the steps of a history: the
sockets of a row and its queries are not more than its queries were at one time,
every socket is in one place at most, and one that was given up is in none. -/
structure WellKept [DecidableEq κ] (P : Pooling π κ ι)
    (history : List (TrafficEvent κ ι × Traffic π κ ι)) (s : Traffic π κ ι) : Prop where
  bounded : ∀ row, (P.idle s.pool row).length + s.inFlight row ≤ peak row history
  once : ∀ row socket, (P.idle s.pool row).count socket + s.users socket ≤ 1
  apart : ∀ row other socket,
    socket ∈ P.idle s.pool row → socket ∈ P.idle s.pool other → row = other
  lost : ∀ x ∈ history, ∀ socket, x.1.lost? = some socket → s.Absent P socket

theorem Run.wellKept [DecidableEq κ] (h : Run P (start P) history s) : WellKept P history s where
  bounded := h.total_le
  once := h.sound.once
  apart := h.sound.apart
  lost x hx socket hlost := (h.gone x hx socket hlost).2

end

end Traffic

end StubResolver
