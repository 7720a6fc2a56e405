import StubResolver.Proofs.Name.Labels
import StubResolver.Wire.Composer

/-!
# What writes append

A write that there is room for puts the same octets behind whatever has been written
before. Writes in a sequence put theirs behind one another, up to the first that
fails.
-/

namespace StubResolver

namespace Name

theorem labelOctets_cons (l : Label) (labels : List Label) :
    Writer.labelOctets (l :: labels) =
      l.length.toUInt8 :: (l ++ Writer.labelOctets labels) := by
  simp [Writer.labelOctets]

theorem length_labelOctets (labels : List Label) :
    (Writer.labelOctets labels).length = labelsWireLength labels := by
  induction labels with
  | nil => rfl
  | cons l labels ih =>
      rw [labelOctets_cons, List.length_cons, List.length_append, ih, labelsWireLength]
      omega

end Name

namespace Writer

/-- The write succeeds where there is room for
the octets, and puts them behind the others. -/
def Appends (w : Writer) (os : List UInt8) : Prop :=
  ∀ c : Composer, c.octets.size + os.length ≤ c.capacity →
    w c = .ok () { c with octets := c.octets ++ os }

/-- The write fails, and where there is room for the
octets, it puts them behind the others first. -/
def FailsAfter (w : Writer) (os : List UInt8) (e : ComposeError) : Prop :=
  ∀ c : Composer, c.octets.size + os.length ≤ c.capacity →
    w c = .error e { c with octets := c.octets ++ os }

variable {w w' : Writer} {os os' : List UInt8} {e : ComposeError}

theorem octets_appends (os : List UInt8) : (octets os).Appends os := fun _ hroom => if_pos hroom

theorem fail_failsAfter (e : ComposeError) : (fail e).FailsAfter [] e := fun _ _ => rfl

theorem labels_appends {ls : List Label} (h : Name.labelsError? ls = none) :
    (labels ls).Appends (labelOctets ls) := by
  unfold labels
  rw [h]
  exact octets_appends _

theorem labels_failsAfter {ls : List Label} (h : Name.labelsError? ls = some e) :
    (labels ls).FailsAfter [] e := by
  unfold labels
  rw [h]
  exact fail_failsAfter e

theorem runOn_labels (ls : List Label) (c : Composer) :
    (labels ls).runOn c =
      match Name.labelsError? ls with
      | some e => (.error e, c)
      | none =>
        if c.octets.size + (labelOctets ls).length ≤ c.capacity then
          (.ok (), { c with octets := c.octets ++ labelOctets ls })
        else (.error .shortBuffer, c) := by
  unfold labels runOn
  cases Name.labelsError? ls with
  | some e => rfl
  | none =>
      by_cases hroom : c.octets.size + (labelOctets ls).length ≤ c.capacity
      · simp only [octets, if_pos hroom]
      · simp only [octets, if_neg hroom]

theorem size_append (m : Octets) (os : List UInt8) : (m ++ os).size = m.size + os.length := by
  rw [← Array.length_toList, Array.toList_appendList, List.length_append, Array.length_toList]

theorem append_append (m : Octets) (os os' : List UInt8) : m ++ os ++ os' = m ++ (os ++ os') := by
  rw [← Array.toList_inj]
  simp only [Array.toList_appendList, List.append_assoc]

theorem Appends.bind_eq {c : Composer} (h : w.Appends os)
    (hroom : c.octets.size + os.length ≤ c.capacity) :
    (do w; w' : Writer) c = w' { c with octets := c.octets ++ os } := by
  change EStateM.bind w (fun _ => w') c = _
  unfold EStateM.bind
  rw [h c hroom]

theorem Appends.bind (h : w.Appends os) (h' : w'.Appends os') :
    Appends (do w; w') (os ++ os') := by
  intro c hroom
  rw [List.length_append] at hroom
  have hroom' : (c.octets ++ os).size + os'.length ≤ c.capacity := by
    rw [size_append]
    omega
  rw [h.bind_eq (by omega), h' _ hroom', append_append]

theorem Appends.bind_failsAfter (h : w.Appends os) (h' : w'.FailsAfter os' e) :
    FailsAfter (do w; w') (os ++ os') e := by
  intro c hroom
  rw [List.length_append] at hroom
  have hroom' : (c.octets ++ os).size + os'.length ≤ c.capacity := by
    rw [size_append]
    omega
  rw [h.bind_eq (by omega), h' _ hroom', append_append]

theorem FailsAfter.bind (h : w.FailsAfter os e) : FailsAfter (do w; w') os e := by
  intro c hroom
  change EStateM.bind w (fun _ => w') c = _
  unfold EStateM.bind
  rw [h c hroom]

theorem Appends.runOn_eq {c : Composer} (h : w.Appends os)
    (hroom : c.octets.size + os.length ≤ c.capacity) :
    w.runOn c = (.ok (), { c with octets := c.octets ++ os }) := by
  unfold runOn
  rw [h c hroom]

theorem Appends.toOctets_eq {capacity : Nat} (h : w.Appends os) (hroom : os.length ≤ capacity) :
    w.toOctets capacity = .ok os.toArray := by
  have hwrite := h (Composer.empty capacity) (by simpa [Composer.empty] using hroom)
  unfold toOctets runOn
  rw [hwrite]
  simp [Composer.empty]

theorem FailsAfter.toOctets_eq {capacity : Nat} (h : w.FailsAfter os e)
    (hroom : os.length ≤ capacity) : w.toOctets capacity = .error e := by
  have hwrite := h (Composer.empty capacity) (by simpa [Composer.empty] using hroom)
  unfold toOctets runOn
  rw [hwrite]

end Writer

end StubResolver
