import FedTrack.Object.Wire

namespace FedTrack

namespace Timestamp

theorem digit?_digit (n : Nat) : digit? (digit n) = some (n % 10) := by
  have hall : ∀ d < 10, digit? (Char.ofNat (48 + d)) = some d := by decide
  exact hall (n % 10) (Nat.mod_lt n (by decide))

/-- A number of at most two digits is read back. -/
theorem two?_digits {n : Nat} (h : n < 100) : two? (digit (n / 10)) (digit n) = some n := by
  have hn : 10 * (n / 10 % 10) + n % 10 = n := by omega
  simp [two?, digit?_digit, hn]

theorem four?_digits {n : Nat} (h : n < 10000) :
    four? (digit (n / 1000)) (digit (n / 100)) (digit (n / 10)) (digit n) = some n := by
  have hn : 100 * (10 * (n / 1000 % 10) + n / 100 % 10) + (10 * (n / 10 % 10) + n % 10) = n := by
    omega
  simp [four?, two?, digit?_digit, hn]

variable {t u : Timestamp}

@[simp] theorem text_whole (t : Timestamp) : t.whole.text = t.text := rfl

theorem InCalendar.whole (h : t.InCalendar) : t.whole.Valid := by
  obtain ⟨hyear, hmonth, hmonth', hday, hday', hhour, hminute, hsecond, -⟩ := h
  exact ⟨⟨hyear, hmonth, hmonth', hday, hday', hhour, hminute, hsecond, Nat.succ_pos _⟩, rfl⟩

theorem whole_eq_of_nanosecond (h : t.nanosecond = 0) : t.whole = t := by
  obtain ⟨year, month, day, hour, minute, second, nanosecond⟩ := t
  cases h
  rfl

theorem daysIn_le (year month : Nat) : daysIn year month ≤ 31 := by
  unfold daysIn
  repeat' split
  all_goals decide

theorem daysIn_pos (year month : Nat) : 1 ≤ daysIn year month := by
  unfold daysIn
  repeat' split
  all_goals decide

theorem InCalendar.lt (h : t.InCalendar) : t.year < 10000 ∧ t.month < 100 ∧ t.day < 100 ∧
    t.hour < 100 ∧ t.minute < 100 ∧ t.second < 100 := by
  obtain ⟨hyear, -, hmonth, -, hday, hhour, hminute, hsecond, -⟩ := h
  have hdays := daysIn_le t.year t.month
  omega

theorem InCalendar.dayBefore (h : t.InCalendar) (hu : t.dayBefore? = some u) : u.InCalendar := by
  obtain ⟨hyear, hmonth, hmonth', hday, hday', htime⟩ := h
  unfold dayBefore? at hu
  split at hu
  · cases hu
    exact ⟨hyear, hmonth, hmonth', by dsimp only; omega, by dsimp only; omega, htime⟩
  split at hu
  · cases hu
    exact ⟨hyear, by dsimp only; omega, by dsimp only; omega, daysIn_pos _ _, Nat.le_refl _, htime⟩
  split at hu
  · cases hu
    exact ⟨by dsimp only; omega, by dsimp only; omega, Nat.le_refl 12, by dsimp only; omega,
      Nat.le_refl 31, htime⟩
  · cases hu

theorem InCalendar.dayAfter (h : t.InCalendar) (hu : t.dayAfter? = some u) : u.InCalendar := by
  obtain ⟨hyear, hmonth, hmonth', hday, hday', htime⟩ := h
  unfold dayAfter? at hu
  split at hu
  · rename_i hlt
    cases hu
    exact ⟨hyear, hmonth, hmonth', by dsimp only; omega, hlt, htime⟩
  split at hu
  · cases hu
    exact ⟨hyear, by dsimp only; omega, by dsimp only; omega, Nat.le_refl 1, daysIn_pos _ _, htime⟩
  split at hu
  · cases hu
    exact ⟨by dsimp only; omega, Nat.le_refl 1, by dsimp only; omega, Nat.le_refl 1, daysIn_pos _ _,
      htime⟩
  · cases hu

/-- Universal time is a time of the calendar too. -/
theorem InCalendar.behind (h : t.InCalendar) {offset : Int} (hoffset : -1440 < offset)
    (hoffset' : offset < 1440) (hu : t.behind? offset = some u) : u.InCalendar := by
  have inDay {t : Timestamp} (ht : t.InCalendar) {minutes : Int} (h0 : 0 ≤ minutes)
      (hlt : minutes < 1440) : Timestamp.InCalendar
        { t with hour := (minutes / 60).toNat, minute := (minutes % 60).toNat } := by
    obtain ⟨hyear, hmonth, hmonth', hday, hday', -, -, hsecond, hnano⟩ := ht
    exact ⟨hyear, hmonth, hmonth', hday, hday', by dsimp only; omega, by dsimp only; omega,
      hsecond, hnano⟩
  have htime : t.hour ≤ 23 ∧ t.minute ≤ 59 := ⟨h.2.2.2.2.2.1, h.2.2.2.2.2.2.1⟩
  simp only [behind?] at hu
  split at hu
  · obtain ⟨v, hv, rfl⟩ := Option.map_eq_some_iff.mp hu
    exact inDay (h.dayBefore hv) (by omega) (by omega)
  split at hu
  · cases hu
    exact inDay h (by omega) (by omega)
  · obtain ⟨v, hv, rfl⟩ := Option.map_eq_some_iff.mp hu
    exact inDay (h.dayAfter hv) (by omega) (by omega)

/-- No clock is ahead or behind by a day. -/
theorem offset?_lt {l : List Char} {offset : Int} (h : offset? l = some offset) :
    -1440 < offset ∧ offset < 1440 := by
  unfold offset? at h
  split at h
  · cases h
    decide
  · cases h
    decide
  · simp only [Option.bind_eq_bind, Option.bind_eq_some_iff] at h
    obtain ⟨hours, -, minutes, -, h⟩ := h
    split at h
    · split at h
      · cases h
        omega
      · split at h
        · cases h
          omega
        · cases h
    · cases h
  · cases h

/-- A clock that is not ahead shows universal time. -/
theorem behind?_zero (h : t.InCalendar) : t.behind? 0 = some t := by
  obtain ⟨year, month, day, hour, minute, second, nanosecond⟩ := t
  obtain ⟨-, -, -, -, -, hhour, hminute, -⟩ := h
  dsimp only at hhour hminute
  have hmin : ¬ (60 * hour + minute : Int) - 0 < 0 := by omega
  have hmax : (60 * hour + minute : Int) - 0 < 1440 := by omega
  have hh : (((60 * hour + minute : Int) - 0) / 60).toNat = hour := by omega
  have hm : (((60 * hour + minute : Int) - 0) % 60).toNat = minute := by omega
  simp only [behind?, if_neg hmin, if_pos hmax, hh, hm]

theorem ofText?_text (h : t.Valid) : ofText? t.text = some t := by
  obtain ⟨hyear, hmonth, hday, hhour, hminute, hsecond⟩ := h.1.lt
  have hnano : (⟨t.year, t.month, t.day, t.hour, t.minute, t.second, 0⟩ : Timestamp) = t :=
    whole_eq_of_nanosecond h.2
  have hread : ofChars? t.chars = if t.InCalendar then t.behind? 0 else none := by
    simp [chars, four, two, ofChars?, four?_digits, two?_digits, hyear, hmonth, hday, hhour,
      hminute, hsecond, fraction?, offset?, hnano]
  rw [ofText?, text, String.toList_ofList, hread, if_pos h.1, behind?_zero h.1]

/-- Only moments of the calendar are read. -/
theorem inCalendar_of_ofText? {s : String} (h : ofText? s = some t) : t.InCalendar := by
  unfold ofText? ofChars? at h
  split at h
  · simp only [Option.bind_eq_bind, Option.bind_eq_some_iff] at h
    obtain ⟨year, -, month, -, day, -, hour, -, minute, -, second, -, ⟨nanosecond, zone⟩, -, offset,
      hoffset, h⟩ := h
    split at h
    · rename_i hcalendar
      exact hcalendar.2.behind (offset?_lt hoffset).1 (offset?_lt hoffset).2 h
    · cases h
  · cases h

end Timestamp

theorem timestamp?_text {t : Timestamp} (h : t.Valid) : timestamp? (.string t.text) = some t := by
  simp [timestamp?, Json.string?, Timestamp.ofText?_text h]

theorem inCalendar_of_timestamp? {j : Json} {t : Timestamp} (h : timestamp? j = some t) :
    t.InCalendar := by
  obtain ⟨s, -, hs⟩ := Option.bind_eq_some_iff.mp h
  exact Timestamp.inCalendar_of_ofText? hs

end FedTrack
