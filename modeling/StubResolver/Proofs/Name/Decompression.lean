import StubResolver.Proofs.Name.NaiveWalk

/-!
# Reading a name is naive decompression

A reading follows each pointer target at most once and 127 targets in all. Neither
bound refuses a name that the naive walk reads with 127 pointers or fewer: a target
that comes up again means that the walk has run into a circle and goes on forever.
-/

namespace StubResolver.Name

/-- What a name comes to by the naive walk that may follow so many pointers: its
labels and the position behind it, or an error. -/
inductive Reads (m : Octets) (allowed pos : Nat) : Except ParseError (List Label × Nat) → Prop where
  | root {labels : List Label} {behind : List Nat} {stop : Nat}
      (walk : Walk m pos labels behind stop) (few : behind.length ≤ allowed)
      (root : RootAt m stop) : Reads m allowed pos (.ok (labels, behind.headD (stop + 1)))
  | reserved {labels : List Label} {behind : List Nat} {stop : Nat} (fault : NameFault)
      (walk : Walk m pos labels behind stop) (few : behind.length ≤ allowed)
      (reserved : ReservedAt m stop) : Reads m allowed pos (.error (.malformedName fault))
  | runsOut {labels : List Label} {behind : List Nat} {stop : Nat}
      (walk : Walk m pos labels behind stop) (few : behind.length ≤ allowed)
      (runsOut : RunsOutAt m stop) : Reads m allowed pos (.error .shortInput)
  | tooMany {labels : List Label} {behind : List Nat} {stop target : Nat} (fault : NameFault)
      (walk : Walk m pos labels behind stop) (all : behind.length = allowed)
      (pointer : PointerAt m stop target) : Reads m allowed pos (.error (.malformedName fault))
  | neverEnds (fault : NameFault) (never : NeverEnds m pos) :
      Reads m allowed pos (.error (.malformedName fault))

variable {m : Octets} {allowed pos next target : Nat}

theorem NeverEnds.of_follows (hnext : Follows m pos next) (h : NeverEnds m next) :
    NeverEnds m pos := by
  apply neverEnds_of_closed (fun p => p = pos ∨ NeverEnds m p) _ (.inl rfl)
  rintro p (rfl | hp)
  · exact ⟨next, hnext, .inr h⟩
  · obtain ⟨visits, rfl, hsteps⟩ := hp
    exact ⟨visits 1, hsteps 0, .inr ⟨fun n => visits (n + 1), rfl, fun n => hsteps (n + 1)⟩⟩

theorem NeverEnds.of_circle {labels : List Label} {behind : List Nat}
    (hwalk : Walk m target labels behind pos) (hpointer : PointerAt m pos target) :
    NeverEnds m pos := by
  apply neverEnds_of_closed (fun p => ∃ labels behind, Walk m p labels behind pos) _
    ⟨_, _, .here pos⟩
  rintro p ⟨_, _, walk⟩
  cases walk with
  | here => exact ⟨target, .inr hpointer, _, _, hwalk⟩
  | label first rest => exact ⟨_, .inl ⟨_, first⟩, _, _, rest⟩
  | pointer first rest => exact ⟨_, .inr first, _, _, rest⟩

theorem Walk.trans {stop : Nat} {labels labels' : List Label} {behind behind' : List Nat}
    (walk : Walk m pos labels behind next) (walk' : Walk m next labels' behind' stop) :
    Walk m pos (labels ++ labels') (behind ++ behind') stop := by
  induction walk with
  | here => exact walk'
  | label first rest ih => exact .label first (ih walk')
  | pointer first rest ih => exact .pointer first (ih walk')

theorem Reads.label {content : Label} {r : Except ParseError (List Label × Nat)}
    (first : LabelAt m pos content next) (h : Reads m allowed next r) :
    Reads m allowed pos (r.map fun read => (content :: read.1, read.2)) := by
  cases h with
  | root walk few root => exact .root (.label first walk) few root
  | reserved fault walk few reserved => exact .reserved fault (.label first walk) few reserved
  | runsOut walk few runsOut => exact .runsOut (.label first walk) few runsOut
  | tooMany fault walk all pointer => exact .tooMany fault (.label first walk) all pointer
  | neverEnds fault never => exact .neverEnds fault (.of_follows (.inl ⟨_, first⟩) never)

theorem Reads.pointer {r : Except ParseError (List Label × Nat)}
    (first : PointerAt m pos target) (h : Reads m allowed target r) :
    Reads m (allowed + 1) pos (r.map fun read => (read.1, pos + 2)) := by
  cases h with
  | root walk few root => exact .root (.pointer first walk) (Nat.succ_le_succ few) root
  | reserved fault walk few reserved =>
      exact .reserved fault (.pointer first walk) (Nat.succ_le_succ few) reserved
  | runsOut walk few runsOut => exact .runsOut (.pointer first walk) (Nat.succ_le_succ few) runsOut
  | tooMany fault walk all pointer =>
      exact .tooMany fault (.pointer first walk) (congrArg Nat.succ all) pointer
  | neverEnds fault never => exact .neverEnds fault (.of_follows (.inr first) never)

/-- The walk with its memory comes to what the naive one
does, if it has come from each target that it remembers. -/
theorem walk_reads (m : Octets) (pos : Nat) (followed : List Nat) (resume : Option Nat)
    (labels : List Label) (hfew : followed.length ≤ maxPointers)
    (hcome : ∀ target ∈ followed, ∃ labels behind, Walk m target labels behind pos) :
    ∃ r, Reads m (maxPointers - followed.length) pos r ∧
      walk m pos followed resume labels =
        r.map fun read => (⟨labels.reverse ++ read.1⟩, resume.getD read.2) := by
  fun_induction walk m pos followed resume labels with
  | case1 pos followed resume labels e h =>
      have hpiece := pieceAt_describes m pos
      rw [h] at hpiece
      rcases hpiece with ⟨reserved, rfl⟩ | ⟨runsOut, rfl⟩
      · exact ⟨_, .reserved _ (.here pos) (Nat.zero_le _) reserved, rfl⟩
      · exact ⟨_, .runsOut (.here pos) (Nat.zero_le _) runsOut, rfl⟩
  | case2 pos followed resume labels next h =>
      have hpiece := pieceAt_describes m pos
      rw [h] at hpiece
      obtain ⟨root, rfl⟩ := hpiece
      exact ⟨_, .root (.here pos) (Nat.zero_le _) root, by simp [Except.map]⟩
  | case3 pos followed resume labels content next h ih =>
      have first : LabelAt m pos content next := by
        have hpiece := pieceAt_describes m pos
        rwa [h] at hpiece
      obtain ⟨r, hreads, hwalk⟩ := ih hfew fun target htarget => by
        obtain ⟨_, _, walk⟩ := hcome target htarget
        exact ⟨_, _, walk.trans (.label first (.here next))⟩
      refine ⟨_, hreads.label first, ?_⟩
      rw [hwalk]
      cases r <;> simp [Except.map]
  | case4 pos followed resume labels target next h hfull =>
      have hpiece := pieceAt_describes m pos
      rw [h] at hpiece
      exact ⟨_, .tooMany _ (.here pos) (by simp; omega) hpiece.1, rfl⟩
  | case5 pos followed resume labels target next h hroom hagain =>
      have hpiece := pieceAt_describes m pos
      rw [h] at hpiece
      obtain ⟨_, _, walk⟩ := hcome target hagain
      exact ⟨_, .neverEnds _ (.of_circle walk hpiece.1), rfl⟩
  | case6 pos followed resume labels target next h hroom hnew ih =>
      have hpiece := pieceAt_describes m pos
      rw [h] at hpiece
      obtain ⟨first, rfl⟩ := hpiece
      obtain ⟨r, hreads, hwalk⟩ := ih (by simp; omega) fun t ht => by
        rcases List.mem_cons.1 ht with rfl | ht
        · exact ⟨_, _, .here t⟩
        · obtain ⟨_, _, walk⟩ := hcome t ht
          exact ⟨_, _, walk.trans (.pointer first (.here target))⟩
      have hallowed : maxPointers - followed.length =
          maxPointers - (target :: followed).length + 1 := by
        simp only [List.length_cons]
        omega
      rw [hallowed]
      refine ⟨_, hreads.pointer first, ?_⟩
      rw [hwalk]
      cases r <;> simp [Except.map]

def EndsWith (r : Except ParseError (List Label × Nat)) (labels : List Label)
    (behind : List Nat) : Except ParseError Piece → Prop
  | .ok (.root next) => r = .ok (labels, behind.headD next)
  | .error .shortInput => r = .error .shortInput
  | _ => ∃ fault, r = .error (.malformedName fault)

variable {r : Except ParseError (List Label × Nat)} {labels : List Label} {behind : List Nat}
  {stop : Nat}

theorem Reads.endsWith (h : Reads m allowed pos r) (walk : Walk m pos labels behind stop)
    (halts : HaltsAfter m allowed behind stop) : EndsWith r labels behind (pieceAt m stop) := by
  cases h with
  | root walk' few root =>
      obtain ⟨rfl, rfl, rfl⟩ := walk.unique halts walk' ⟨few, .inl root.stuck⟩
      rw [root.pieceAt_eq]
      exact rfl
  | reserved fault walk' few reserved =>
      obtain ⟨rfl, rfl, rfl⟩ := walk.unique halts walk' ⟨few, .inl reserved.stuck⟩
      rw [reserved.pieceAt_eq]
      exact ⟨fault, rfl⟩
  | runsOut walk' few runsOut =>
      obtain ⟨rfl, rfl, rfl⟩ := walk.unique halts walk' ⟨few, .inl runsOut.stuck⟩
      rw [runsOut.pieceAt_eq]
      exact rfl
  | tooMany fault walk' all pointer =>
      obtain ⟨rfl, rfl, rfl⟩ := walk.unique halts walk' ⟨Nat.le_of_eq all, .inr ⟨all, _, pointer⟩⟩
      rw [pointer.pieceAt_eq]
      exact ⟨fault, rfl⟩
  | neverEnds fault never =>
      rcases halts.2 with hstuck | ⟨-, _, pointer⟩
      · exact ((never.walk walk).not_stuck hstuck).elim
      · rw [pointer.pieceAt_eq]
        exact ⟨fault, rfl⟩

theorem Reads.ok_iff (h : Reads m allowed pos r) :
    r = .ok (labels, next) ↔ ∃ behind stop, Walk m pos labels behind stop ∧
      behind.length ≤ allowed ∧ RootAt m stop ∧ next = behind.headD (stop + 1) := by
  constructor
  · rintro rfl
    cases h with
    | root walk few root => exact ⟨_, _, walk, few, root, rfl⟩
  · rintro ⟨behind, stop, walk, few, root, rfl⟩
    have hends := h.endsWith walk ⟨few, .inl root.stuck⟩
    rwa [root.pieceAt_eq] at hends

theorem Reads.short_iff (h : Reads m allowed pos r) :
    r = .error .shortInput ↔ ∃ labels behind stop, Walk m pos labels behind stop ∧
      behind.length ≤ allowed ∧ RunsOutAt m stop := by
  constructor
  · rintro rfl
    cases h with
    | runsOut walk few runsOut => exact ⟨_, _, _, walk, few, runsOut⟩
  · rintro ⟨labels, behind, stop, walk, few, runsOut⟩
    have hends := h.endsWith walk ⟨few, .inl runsOut.stuck⟩
    rwa [runsOut.pieceAt_eq] at hends

theorem Reads.malformed_iff (h : Reads m allowed pos r) :
    (∃ fault, r = .error (.malformedName fault)) ↔ NeverEnds m pos ∨
      ∃ labels behind stop, Walk m pos labels behind stop ∧
        (behind.length ≤ allowed ∧ ReservedAt m stop ∨
          behind.length = allowed ∧ ∃ target, PointerAt m stop target) := by
  constructor
  · rintro ⟨fault, rfl⟩
    cases h with
    | reserved _ walk few reserved => exact .inr ⟨_, _, _, walk, .inl ⟨few, reserved⟩⟩
    | tooMany _ walk all pointer => exact .inr ⟨_, _, _, walk, .inr ⟨all, _, pointer⟩⟩
    | neverEnds _ never => exact .inl never
  · rintro (never | ⟨labels, behind, stop, walk, ⟨few, reserved⟩ | ⟨all, target, pointer⟩⟩)
    · cases h with
      | root walk few root => exact ((never.walk walk).not_stuck root.stuck).elim
      | runsOut walk few runsOut => exact ((never.walk walk).not_stuck runsOut.stuck).elim
      | reserved fault | tooMany fault | neverEnds fault => exact ⟨fault, rfl⟩
    · have hends := h.endsWith walk ⟨few, .inl reserved.stuck⟩
      rwa [reserved.pieceAt_eq] at hends
    · have hends := h.endsWith walk ⟨Nat.le_of_eq all, .inr ⟨all, target, pointer⟩⟩
      rwa [pointer.pieceAt_eq] at hends

def leaves (pos : Nat) : Except ParseError (List Label × Nat) → Except ParseError Name × Nat
  | .ok (labels, next) => (.ok ⟨labels⟩, next)
  | .error e => (.error e, pos)

theorem read_runAt (m : Octets) (pos : Nat) :
    ∃ r, Reads m maxPointers pos r ∧ read.runAt m pos = leaves pos r := by
  obtain ⟨r, hreads, hwalk⟩ := walk_reads m pos [] none [] (Nat.zero_le _) (by simp)
  refine ⟨r, hreads, ?_⟩
  cases r <;> simp [Reader.runAt, read, hwalk, Except.map, leaves]

/-- Reading a name agrees with naive decompression. It gives the labels of a walk
that ends at the root after at most 127 pointers, and leaves the reader behind the
first pointer or the root. It fails as malformed where the walk never ends, or meets
a reserved octet or a 128th pointer, and for want of octets where the walk runs out
of them; then the reader stays where it was. -/
theorem read_agrees_with_naive_walk (m : Octets) (pos : Nat) :
    (∀ labels next, read.runAt m pos = (.ok ⟨labels⟩, next) ↔
      ∃ behind stop, Walk m pos labels behind stop ∧ behind.length ≤ 127 ∧ RootAt m stop ∧
        next = behind.headD (stop + 1)) ∧
    ((∃ fault, read.runAt m pos = (.error (.malformedName fault), pos)) ↔
      NeverEnds m pos ∨ ∃ labels behind stop, Walk m pos labels behind stop ∧
        (behind.length ≤ 127 ∧ ReservedAt m stop ∨
          behind.length = 127 ∧ ∃ target, PointerAt m stop target)) ∧
    (read.runAt m pos = (.error .shortInput, pos) ↔
      ∃ labels behind stop, Walk m pos labels behind stop ∧ behind.length ≤ 127 ∧
        RunsOutAt m stop) ∧
    ∀ e, (read.runAt m pos).1 = .error e →
      (read.runAt m pos).2 = pos ∧ (e = .shortInput ∨ ∃ fault, e = .malformedName fault) := by
  obtain ⟨r, hreads, hrun⟩ := read_runAt m pos
  rw [hrun]
  refine ⟨fun labels next => ?_, ?_, ?_, ?_⟩
  · rw [show 127 = maxPointers from rfl, ← hreads.ok_iff]
    cases r <;> simp [leaves, Prod.ext_iff]
  · rw [show 127 = maxPointers from rfl, ← hreads.malformed_iff]
    cases r <;> simp [leaves]
  · rw [show 127 = maxPointers from rfl, ← hreads.short_iff]
    cases r <;> simp [leaves]
  · rintro e he
    cases hreads with
    | root walk few root => simp [leaves] at he
    | runsOut =>
        simp only [leaves, Except.error.injEq] at he
        exact ⟨rfl, .inl he.symm⟩
    | reserved fault | tooMany fault | neverEnds fault =>
        simp only [leaves, Except.error.injEq] at he
        exact ⟨rfl, .inr ⟨fault, he.symm⟩⟩

end StubResolver.Name
