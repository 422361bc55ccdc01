import Switchboard.Proofs.Call.History

/-!
# Slow networks over time

The round trip is measured again and again, and every measurement may limit the
media. Limits are set for good: whatever is measured afterwards sets the same ones
again. So a run of measurements limits the media if any of them shows a slow
network, and it does not matter which one does, nor when.
-/

namespace Switchboard.Call

open Settings

variable {edge : Edge} {ping : Int} {pings : List Int} {p : Parameters}

/-! ## One measurement -/

namespace NetworkProfile

theorem ofPing_eq_edge_iff : ofPing edge ping = .edge ↔
    edge.active = true ∧ 0 < ping ∧ (edge.pingThresholdMs.toNat : Int) < ping := by
  unfold ofPing
  split
  · rename_i hslow
    exact iff_of_true rfl hslow
  · rename_i hquick
    exact iff_of_false NetworkProfile.noConfusion hquick

/-- What is measured is a word with a sign, and the threshold is one without. They
are compared without signs, once the measurement is known to be positive. -/
def ofWord (edge : Edge) (word : Int32) : NetworkProfile :=
  if word ≤ 0 ∨ edge.active = false then .normal
  else if edge.pingThresholdMs < word.toUInt32 then .edge
  else .normal

theorem toNat_toUInt32_of_pos {word : Int32} (h : 0 < word) :
    (word.toUInt32.toNat : Int) = word.toInt := by
  rw [Int32.toNat_toUInt32_of_le (Int32.le_of_lt h)]
  exact Int.toNat_of_nonneg (Int.le_of_lt (Int32.lt_iff_toInt_lt.mp h))

/-- Nothing is lost with the sign of a positive word, however large the threshold
is. -/
theorem ofWord_eq_ofPing (edge : Edge) (word : Int32) :
    ofWord edge word = ofPing edge word.toInt := by
  have hpos : 0 < word ↔ 0 < word.toInt := Int32.lt_iff_toInt_lt
  unfold ofWord
  split
  · rename_i hnot
    symm
    apply if_neg
    rintro ⟨hactive, hword, -⟩
    rcases hnot with hneg | hidle
    · exact Int32.not_lt.mpr hneg (hpos.mpr hword)
    · exact Bool.false_ne_true (hidle.symm.trans hactive)
  · rename_i hmeasured
    rw [not_or, Int32.not_le, Bool.not_eq_false] at hmeasured
    obtain ⟨hword, hactive⟩ := hmeasured
    have hcompare : edge.pingThresholdMs < word.toUInt32 ↔
        edge.active = true ∧ 0 < word.toInt ∧ (edge.pingThresholdMs.toNat : Int) < word.toInt := by
      rw [UInt32.lt_iff_toNat_lt, ← Int.ofNat_lt, toNat_toUInt32_of_pos hword]
      exact ⟨fun hslow => ⟨hactive, hpos.mp hword, hslow⟩, fun hslow => hslow.2.2⟩
    unfold ofPing
    simp only [hcompare]

end NetworkProfile

namespace Parameters

/-! ## Limits -/

/-- The media are limited to what a slow network carries. -/
def limited (p : Parameters) (edge : Edge) : Parameters :=
  { p with
    network := {
      lowBandwidth := true
      upKbps := edge.bandwidthKbps
      downKbps := edge.bandwidthKbps
      upPacketMs := edge.packetTimeMs
      downPacketMs := edge.packetTimeMs }
    video := { p.video with enabled := false } }

theorem limited_limited (p : Parameters) (edge edge' : Edge) :
    (p.limited edge).limited edge' = p.limited edge' := rfl

theorem limited_adapt (p : Parameters) (edge edge' : Edge) (ping : Int) :
    (p.adapt edge ping).limited edge' = p.limited edge' := by
  unfold adapt
  split <;> rfl

theorem adapt_of_low (h : p.network.lowBandwidth = true) (edge : Edge) (ping : Int) :
    p.adapt edge ping = p.limited edge :=
  if_pos (.inr h)

theorem adapt_of_slow (h : NetworkProfile.ofPing edge ping = .edge) (p : Parameters) :
    p.adapt edge ping = p.limited edge :=
  if_pos (.inl h)

theorem adapt_of_quick (hlow : p.network.lowBandwidth = false)
    (h : NetworkProfile.ofPing edge ping ≠ .edge) : p.adapt edge ping = p := by
  apply if_neg
  rintro (hslow | hold)
  · exact h hslow
  · exact Bool.false_ne_true (hlow.symm.trans hold)

/-! ## A run of measurements -/

/-- The parameters adapt to each of the measurements in turn. -/
def adaptAll (p : Parameters) (edge : Edge) (pings : List Int) : Parameters :=
  p.changeAll (pings.map (.adapt edge))

theorem adaptAll_cons (p : Parameters) (edge : Edge) (ping : Int) (pings : List Int) :
    p.adaptAll edge (ping :: pings) = (p.adapt edge ping).adaptAll edge pings := rfl

/-- Whatever is measured afterwards sets the same limits again. -/
theorem adaptAll_limited (p : Parameters) (edge : Edge) (pings : List Int) :
    (p.limited edge).adaptAll edge pings = p.limited edge := by
  induction pings with
  | nil => rfl
  | cons ping pings ih => rw [adaptAll_cons, adapt_of_low rfl, limited_limited, ih]

theorem adaptAll_of_low (hlow : p.network.lowBandwidth = true) (edge : Edge) (h : pings ≠ []) :
    p.adaptAll edge pings = p.limited edge := by
  obtain ⟨ping, rest, rfl⟩ := List.exists_cons_of_ne_nil h
  rw [adaptAll_cons, adapt_of_low hlow, adaptAll_limited]

/-- One measurement of a slow network is enough, wherever it comes. -/
theorem adaptAll_of_slow (h : ∃ ping ∈ pings, NetworkProfile.ofPing edge ping = .edge)
    (p : Parameters) : p.adaptAll edge pings = p.limited edge := by
  obtain ⟨slowest, hmem, hslow⟩ := h
  induction pings generalizing p with
  | nil => cases hmem
  | cons ping pings ih =>
      rw [adaptAll_cons]
      rcases List.mem_cons.mp hmem with rfl | hlater
      · rw [adapt_of_slow hslow, adaptAll_limited]
      · rw [ih (p.adapt edge ping) hlater, limited_adapt]

theorem adaptAll_of_quick (hlow : p.network.lowBandwidth = false)
    (h : ¬∃ ping ∈ pings, NetworkProfile.ofPing edge ping = .edge) :
    p.adaptAll edge pings = p := by
  induction pings with
  | nil => rfl
  | cons ping pings ih =>
      have hping : NetworkProfile.ofPing edge ping ≠ .edge :=
        fun hslow => h ⟨ping, List.mem_cons_self, hslow⟩
      have hpings : ¬∃ ping ∈ pings, NetworkProfile.ofPing edge ping = .edge :=
        fun ⟨later, hlater, hslow⟩ => h ⟨later, List.mem_cons_of_mem ping hlater, hslow⟩
      rw [adaptAll_cons, adapt_of_quick hlow hping, ih hpings]

theorem adaptAll_eq (h : pings ≠ []) (p : Parameters) (edge : Edge) :
    p.adaptAll edge pings =
      if p.network.lowBandwidth = true ∨ ∃ ping ∈ pings, NetworkProfile.ofPing edge ping = .edge
      then p.limited edge else p := by
  split
  · rename_i hlimited
    rcases hlimited with hlow | hslow
    · exact adaptAll_of_low hlow edge h
    · exact adaptAll_of_slow hslow p
  · rename_i hnot
    rw [not_or, Bool.not_eq_true] at hnot
    exact adaptAll_of_quick hnot.1 hnot.2

/-- Slow networks are looked for, and some measurement is above the threshold. -/
theorem exists_slow_iff : (∃ ping ∈ pings, NetworkProfile.ofPing edge ping = .edge) ↔
    edge.active = true ∧
      ∃ ping ∈ pings, 0 < ping ∧ (edge.pingThresholdMs.toNat : Int) < ping := by
  constructor
  · rintro ⟨ping, hping, hslow⟩
    obtain ⟨hactive, hslow⟩ := NetworkProfile.ofPing_eq_edge_iff.mp hslow
    exact ⟨hactive, ping, hping, hslow⟩
  · rintro ⟨hactive, ping, hping, hslow⟩
    exact ⟨ping, hping, NetworkProfile.ofPing_eq_edge_iff.mpr ⟨hactive, hslow⟩⟩

end Parameters

/-! ## Nothing restores the media -/

/-- The change is a setting of low bandwidth itself. -/
def Change.setsLowBandwidth : Change → Bool
  | .set (.lowBandwidth _) => true
  | _ => false

namespace Parameters

variable {c : Change}

theorem lowBandwidth_change (hlow : p.network.lowBandwidth = true)
    (hc : c.setsLowBandwidth = false) : (p.change c).network.lowBandwidth = true := by
  cases c with
  | set setting =>
      cases setting with
      | lowBandwidth value => exact Bool.noConfusion hc
      | _ => exact hlow
  | adapt edge ping =>
      show (p.adapt edge ping).network.lowBandwidth = true
      rw [adapt_of_low hlow]
      rfl
  | commit agreement => exact hlow
  | copy => exact hlow

theorem lowBandwidth_changeAll (hlow : p.network.lowBandwidth = true) {changes : List Change}
    (h : ∀ c ∈ changes, c.setsLowBandwidth = false) :
    (p.changeAll changes).network.lowBandwidth = true := by
  induction changes generalizing p with
  | nil => exact hlow
  | cons c changes ih =>
      obtain ⟨hc, hchanges⟩ := List.forall_mem_cons.mp h
      rw [changeAll_cons]
      exact ih (lowBandwidth_change hlow hc) hchanges

/-- **Adapting to a run of measurements.** Bandwidth is low after the run exactly if
it was before, or slow networks are looked for and one of the measurements is
positive and above the threshold. Where it is low the media have the limits of
the settings and no video, and nothing else has changed; where it is not, nothing
has changed at all. So the order of the measurements and how often each was made
do not matter. Low bandwidth stays low, until somebody sets it otherwise. That
measurements come as words with a sign makes no difference. -/
theorem adapted_to_measurements (p : Parameters) (edge : Edge) {pings : List Int}
    (hmeasured : pings ≠ []) :
    let adapted := p.adaptAll edge pings
    (adapted.network.lowBandwidth = true ↔ p.network.lowBandwidth = true ∨
      edge.active = true ∧ ∃ ping ∈ pings, 0 < ping ∧ (edge.pingThresholdMs.toNat : Int) < ping) ∧
    adapted = (if adapted.network.lowBandwidth then p.limited edge else p) ∧
    (∀ pings' : List Int, (∀ ping, ping ∈ pings' ↔ ping ∈ pings) →
      p.adaptAll edge pings' = adapted) ∧
    (adapted.network.lowBandwidth = true → ∀ changes : List Change,
      (∀ c ∈ changes, c.setsLowBandwidth = false) →
      (adapted.changeAll changes).network.lowBandwidth = true) ∧
    ∀ word : Int32, NetworkProfile.ofWord edge word = .ofPing edge word.toInt := by
  intro adapted
  have heq : adapted = _ := adaptAll_eq hmeasured p edge
  have hlow : adapted.network.lowBandwidth = true ↔ p.network.lowBandwidth = true ∨
      ∃ ping ∈ pings, NetworkProfile.ofPing edge ping = .edge := by
    rw [heq]
    split
    · rename_i hlimited
      exact iff_of_true rfl hlimited
    · rename_i hnot
      exact iff_of_false (fun hlow => hnot (.inl hlow)) hnot
  refine ⟨?_, ?_, ?_, fun hlow _ => lowBandwidth_changeAll hlow,
    NetworkProfile.ofWord_eq_ofPing edge⟩
  · rw [hlow, exists_slow_iff]
  · simp only [hlow]
    exact heq
  · intro pings' hsame
    obtain ⟨ping, hping⟩ := List.exists_mem_of_ne_nil pings hmeasured
    have hmeasured' : pings' ≠ [] := List.ne_nil_of_mem ((hsame ping).mpr hping)
    rw [adaptAll_eq hmeasured', heq]
    simp only [hsame]

/-- The one threshold is just below the largest word with a sign, the other one
just below what -1 would be without a sign. -/
theorem adapted_to_large_measurements :
    let p : Parameters := { video := { enabled := true }, feedback := { enabled := true } }
    let below : Edge := { active := true, pingThresholdMs := 2147483646, bandwidthKbps := 16 }
    let above : Edge := { active := true, pingThresholdMs := 4294967294 }
    p.adaptAll below [-1, 2147483647, 0, 40, 40] = p.limited below ∧
      p.adaptAll above [-1, 2147483647, -1] = p := by
  intro p below above
  constructor
  · obtain ⟨hiff, heq, -⟩ := adapted_to_measurements p below
      (List.cons_ne_nil (-1) [2147483647, 0, 40, 40])
    rw [heq]
    exact if_pos (hiff.mpr (.inr (by decide)))
  · obtain ⟨hiff, heq, -⟩ := adapted_to_measurements p above
      (List.cons_ne_nil (-1) [2147483647, -1])
    rw [heq]
    exact if_neg (mt hiff.mp (by decide))

end Parameters

end Switchboard.Call
