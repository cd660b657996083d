/-
Path data is read back as the commands of the path.

* `PathData.Spells` — a text is read as a number, whatever follows that
  does not go on with it;
* `PathData.spells_coordinate` — a coordinate is spelled by its text, without a
  zero before the point;
* `PathData.number?_pair` — two coordinates are told apart, with a blank
  between them or without;
* `PathData.reads_segment` — each command is read back from its shorter form;
* `PathData.Pen.OnGrid` — the pen stays on the grid of a path, so a relative coordinate leads
  exactly to where its command does;
* `PathData.Cursor.Follows.next` — the pen of the writer and the cursor of
  the reader stay together;
* `PathData.commands?_text` — so a chain of commands is read back;
* `Path.read_data` — path data is read back, and is not longer than the
  absolute form of all commands.

Design notes.  Every command starts with a letter, so what stands behind a number is its own
command or the end; the letter before it is never used again.
-/
import LineCharts.Proofs.Decimal.Exact
import LineCharts.Proofs.Geometry.Rounding
import LineCharts.Proofs.PathData.Reader
import LineCharts.Proofs.Trace.Outline

namespace LineCharts

namespace PathData

/-! ### Numbers -/

/-- The text does not go on with a number: it does not start with a digit, a power of ten or,
where the number has no point yet, a point. -/
def Stops (point : Prop) (rest : List Char) : Prop :=
  ∀ c ∈ rest.head?, c.isDigit = false ∧ c ≠ 'e' ∧ c ≠ 'E' ∧ (c = '.' → point)

theorem stops_cons {point : Prop} {c : Char} {rest : List Char} (hdigit : c.isDigit = false)
    (he : c ≠ 'e' ∧ c ≠ 'E') (hpoint : c = '.' → point) : Stops point (c :: rest) := by
  rintro _ ⟨⟩
  exact ⟨hdigit, he.1, he.2, hpoint⟩

theorem exponent_of_stops {point : Prop} {rest : List Char} (h : Stops point rest) :
    exponent rest = (0, rest) := by
  cases rest with
  | nil => rfl
  | cons c rest =>
    obtain ⟨_, he, hE, _⟩ := h c rfl
    exact if_neg fun hc => hc.1.elim he hE

theorem takeWhile_digits {digits rest : List Char} (hdigits : ∀ c ∈ digits, c.isDigit = true)
    (hrest : ∀ c ∈ rest.head?, c.isDigit = false) :
    (digits ++ rest).takeWhile Char.isDigit = digits ∧
      (digits ++ rest).dropWhile Char.isDigit = rest := by
  rw [List.takeWhile_append_of_pos hdigits, List.dropWhile_append_of_pos hdigits]
  cases rest with
  | nil => exact ⟨List.append_nil _, rfl⟩
  | cons c rest =>
    have hc := hrest c rfl
    rw [List.takeWhile_cons, List.dropWhile_cons, hc]
    exact ⟨List.append_nil _, rfl⟩

/-- A numeral is read in full, behind which the text stops. -/
theorem unsigned?_text (n : Decimal.Numeral) {rest : List Char}
    (hrest : Stops (n.fraction ≠ []) rest) :
    unsigned? (n.text ++ rest) = some (n.value, rest) := by
  have hdigits := fun c hc => (hrest c hc).1
  have hsplit : (n.text ++ rest).takeWhile Char.isDigit = n.whole ∧
      behindPoint ((n.text ++ rest).dropWhile Char.isDigit) = (n.fraction, rest) := by
    rw [Decimal.Numeral.text, List.append_assoc]
    split
    case isTrue hfraction =>
      -- no point has been read, so what follows must not start with one
      obtain ⟨htake, hdrop⟩ := takeWhile_digits n.whole_digits hdigits
      rw [List.nil_append, htake, hdrop, hfraction]
      refine ⟨rfl, ?_⟩
      unfold behindPoint
      split
      case h_1 ds => exact absurd hfraction ((hrest '.' rfl).2.2.2 rfl)
      case h_2 => rfl
    case isFalse hfraction =>
      obtain ⟨htake, hdrop⟩ := takeWhile_digits n.fraction_digits hdigits
      have hpoint : ∀ c ∈ ('.' :: (n.fraction ++ rest)).head?, c.isDigit = false := by
        rintro _ ⟨⟩
        rfl
      have hwhole := takeWhile_digits n.whole_digits hpoint
      rw [List.cons_append, hwhole.1, hwhole.2]
      exact ⟨rfl, Prod.ext htake hdrop⟩
  unfold unsigned?
  dsimp only
  rw [hsplit.1, hsplit.2, if_neg n.some_digit, exponent_of_stops hrest, zpow_zero, mul_one]
  rfl

/-- The text is read as a number, whatever follows that does not go on with it. -/
structure Spells (x : Rat) (cs : List Char) : Prop where
  head : ∃ c rest, cs = c :: rest ∧ (c.isDigit = true ∨ c = '.' ∨ c = '-')
  read : ∀ rest, Stops ('.' ∈ cs) rest → number? (cs ++ rest) = some (x, rest)

theorem spells_text (n : Decimal.Numeral) : Spells n.value n.text := by
  obtain ⟨c, cs, htext, hc⟩ := n.text_head
  refine ⟨⟨c, cs, htext, hc.imp_right .inl⟩, fun rest hrest => ?_⟩
  rw [n.point_mem_text] at hrest
  have hsign : sign (n.text ++ rest) = (false, n.text ++ rest) := by
    rw [htext, List.cons_append]
    unfold sign
    split
    case h_1 heq =>
      cases heq
      exact absurd hc (by decide)
    case h_2 heq =>
      cases heq
      exact absurd hc (by decide)
    case h_3 => rfl
  rw [number?, hsign, unsigned?_text n hrest]
  rfl

theorem spells_neg_text (n : Decimal.Numeral) : Spells (-n.value) ('-' :: n.text) := by
  refine ⟨⟨'-', n.text, rfl, .inr (.inr rfl)⟩, fun rest hrest => ?_⟩
  have hpoint : ('.' ∈ '-' :: n.text) ↔ n.fraction ≠ [] := by
    rw [List.mem_cons, n.point_mem_text]
    simp
  rw [hpoint] at hrest
  have hsign : sign ('-' :: n.text ++ rest) = (true, n.text ++ rest) := rfl
  rw [number?, hsign, unsigned?_text n hrest]
  rfl

/-! ### Coordinates -/

/-- A text starts with a zero and a point only if nothing else is in front of the point. -/
theorem text_ne_zero_point (n : Decimal.Numeral) (hwhole : n.whole ≠ [])
    (hzero : ¬(n.whole = ['0'] ∧ n.fraction ≠ [])) (rest : List Char) :
    n.text ≠ '0' :: '.' :: rest := by
  obtain ⟨c, cs, hcs⟩ := List.exists_cons_of_ne_nil hwhole
  intro htext
  refine hzero ?_
  rw [Decimal.Numeral.text, hcs, List.cons_append] at htext
  obtain ⟨rfl, htail⟩ := List.cons.inj htext
  cases cs with
  | nil =>
    refine ⟨hcs, fun hf => ?_⟩
    rw [if_pos hf] at htail
    cases htail
  | cons d ds =>
    -- a digit stands in the second place, and no point
    have hd : d.isDigit = true := n.whole_digits d (by simp [hcs])
    rw [(List.cons.inj htail).1] at hd
    exact absurd hd (by decide)

/-- A text has no sign. -/
theorem text_ne_minus (n : Decimal.Numeral) (rest : List Char) : n.text ≠ '-' :: rest := by
  obtain ⟨c, cs, htext, hc⟩ := n.text_head
  intro h
  rw [htext] at h
  rw [(List.cons.inj h).1] at hc
  exact absurd hc (by decide)

/-- The numeral without a single zero before the point. -/
theorem exists_dropLeadingZero (n : Decimal.Numeral) (hwhole : n.whole ≠ []) :
    ∃ m : Decimal.Numeral, m.value = n.value ∧ dropLeadingZero n.text = m.text ∧
      dropLeadingZero ('-' :: n.text) = '-' :: m.text := by
  by_cases hzero : n.whole = ['0'] ∧ n.fraction ≠ []
  · obtain ⟨hw, hf⟩ := hzero
    refine ⟨⟨[], n.fraction, nofun, n.fraction_digits, by simpa using hf⟩, ?_, ?_, ?_⟩
    · rw [Decimal.Numeral.value, Decimal.Numeral.value, hw]
      rfl
    · rw [Decimal.Numeral.text, Decimal.Numeral.text, hw, if_neg hf]
      rfl
    · rw [Decimal.Numeral.text, Decimal.Numeral.text, hw, if_neg hf]
      rfl
  · have hkeep := text_ne_zero_point n hwhole hzero
    refine ⟨n, rfl, ?_, ?_⟩
    · unfold dropLeadingZero
      split
      case h_1 rest heq => exact absurd heq (hkeep rest)
      case h_2 rest heq => exact absurd heq (text_ne_minus n _)
      case h_3 => rfl
    · unfold dropLeadingZero
      split
      case h_1 rest heq => cases heq
      case h_2 rest heq => exact absurd (List.cons.inj heq).2 (hkeep rest)
      case h_3 => rfl

/-- **A coordinate is spelled by its text.** -/
theorem spells_coordinate {x : Rat} (h : Exact.Ends x) : Spells x (coordinate x) := by
  obtain ⟨n, hvalue, hwhole, htext⟩ := Exact.text_of_ends h
  obtain ⟨m, hm, hplain, hminus⟩ := exists_dropLeadingZero n hwhole
  -- zero is added to make a negative zero positive; rationals have none
  have hcoordinate : coordinate x = dropLeadingZero (Exact.text x).toList := by
    show dropLeadingZero (Exact.text (x + 0.0)).toList = _
    rw [Exact.zero_lit, add_zero]
  rw [hcoordinate, htext]
  split
  case isTrue hneg =>
    have hx : x = -m.value := by
      rw [hm, hvalue, abs_of_neg hneg, neg_neg]
    rw [hminus, hx]
    exact spells_neg_text m
  case isFalse hneg =>
    have hx : x = m.value := by
      rw [hm, hvalue, abs_of_nonneg (not_lt.mp hneg)]
    rw [hplain, hx]
    exact spells_text m

theorem Spells.skipBlanks_append {x : Rat} {cs : List Char} (h : Spells x cs)
    (rest : List Char) :
    skipBlanks (cs ++ rest) = cs ++ rest := by
  obtain ⟨c, cs', rfl, hc⟩ := h.head
  have hblank : isBlank c = false := by
    rcases hc with hc | rfl | rfl
    · by_contra hb
      simp only [isBlank, Bool.not_eq_false, Bool.or_eq_true, decide_eq_true_eq] at hb
      rcases hb with ((rfl | rfl) | rfl) | rfl <;> exact absurd hc (by decide)
    · rfl
    · rfl
  rw [skipBlanks, List.cons_append, List.dropWhile_cons, hblank]
  rfl

theorem Spells.skipComma_append {x : Rat} {cs : List Char} (h : Spells x cs)
    (rest : List Char) :
    skipComma (cs ++ rest) = cs ++ rest := by
  have hblanks := h.skipBlanks_append rest
  obtain ⟨c, cs', rfl, hc⟩ := h.head
  unfold skipComma
  rw [hblanks]
  split
  case h_1 rest' heq =>
    cases heq
    exact absurd hc (by decide)
  case h_2 => rfl

theorem pair_cases (xs ys : List Char) :
    pair xs ys = xs ++ ' ' :: ys ∨ pair xs ys = xs ++ ys :=
  ite_eq_or_eq _ _ _

theorem Spells.skipBlanks_pair {x : Rat} {xs : List Char} (h : Spells x xs)
    (ys rest : List Char) :
    skipBlanks (pair xs ys ++ rest) = pair xs ys ++ rest := by
  rcases pair_cases xs ys with heq | heq
  · rw [heq, List.append_assoc, h.skipBlanks_append]
  · rw [heq, List.append_assoc, h.skipBlanks_append]

/-- **Two coordinates are told apart.**  The second one starts with a sign, with a point
behind a number that has one, or behind a blank. -/
theorem number?_pair {x y : Rat} {xs ys : List Char} (hx : Spells x xs) (hy : Spells y ys)
    {rest : List Char} (hrest : Stops ('.' ∈ ys) rest) : ∃ middle,
      number? (pair xs ys ++ rest) = some (x, middle) ∧
        number? (skipComma middle) = some (y, rest) := by
  have hread := hy.read rest hrest
  have hblank : number? (xs ++ ' ' :: ys ++ rest) = some (x, ' ' :: ys ++ rest) := by
    rw [List.append_assoc]
    exact hx.read _ (stops_cons (by decide) (by decide) (fun h => absurd h (by decide)))
  have hskip : skipComma (' ' :: ys ++ rest) = ys ++ rest := by
    have hspace : skipBlanks (' ' :: ys ++ rest) = skipBlanks (ys ++ rest) := rfl
    rw [skipComma, hspace]
    exact hy.skipComma_append rest
  have hjoined (hstops : Stops ('.' ∈ xs) (ys ++ rest)) :
      number? (xs ++ ys ++ rest) = some (x, ys ++ rest) := by
    rw [List.append_assoc]
    exact hx.read _ hstops
  have hnext := (congrArg number? (hy.skipComma_append rest)).trans hread
  -- the second number starts with a sign, with a point or with a digit
  unfold pair
  split
  case h_1 ds =>
    exact ⟨_, hjoined (stops_cons (by decide) (by decide) (fun h => absurd h (by decide))),
      hnext⟩
  case h_2 ds =>
    dsimp only
    split
    case isTrue => exact ⟨_, hblank, (congrArg number? hskip).trans hread⟩
    case isFalse hpoint =>
      have hmem : '.' ∈ xs := by simpa using hpoint
      exact ⟨_, hjoined (stops_cons (by decide) (by decide) fun _ => hmem), hnext⟩
  case h_3 => exact ⟨_, hblank, (congrArg number? hskip).trans hread⟩

/-! ### The grid of a path -/

end PathData

/-- The coordinate has the places of a path. -/
def OnGrid (unit x : Rat) : Prop := ∃ k : Int, x = k / unit

def Point.OnGrid (unit : Rat) (p : Point Rat) : Prop :=
  LineCharts.OnGrid unit p.x ∧ LineCharts.OnGrid unit p.y

def PathCommand.OnGrid (unit : Rat) : PathCommand Rat → Prop
  | .moveTo p => p.OnGrid unit
  | .lineTo p => p.OnGrid unit
  | .close => True

variable {unit : Rat}

theorem OnGrid.sub {x y : Rat} (hx : OnGrid unit x) (hy : OnGrid unit y) :
    OnGrid unit (x - y) := by
  obtain ⟨k, rfl⟩ := hx
  obtain ⟨l, rfl⟩ := hy
  refine ⟨k - l, ?_⟩
  rw [Int.cast_sub, sub_div]

theorem OnGrid.roundTo {x : Rat} (hunit : unit ≠ 0) (hx : OnGrid unit x) :
    Path.roundTo unit x = x := by
  obtain ⟨k, rfl⟩ := hx
  exact Path.roundTo_div hunit k

theorem onGrid_zero : OnGrid unit 0 := ⟨0, by rw [Int.cast_zero, zero_div]⟩

theorem onGrid_roundTo (x : Rat) : OnGrid unit (Path.roundTo unit x) :=
  ⟨_, Path.roundTo_eq unit x⟩

namespace PathData

/-! ### Commands -/

/-- The letters that commands start with. -/
def letters : List Char := ['z', 'M', 'm', 'L', 'l', 'H', 'h', 'V', 'v']

/-- The text of further commands: nothing, or a letter. -/
def Leads (rest : List Char) : Prop := ∀ c ∈ rest.head?, c ∈ letters

theorem Leads.stops {rest : List Char} (h : Leads rest) (point : Prop) :
    Stops point rest := by
  have hsafe :
      letters.all (fun c => !c.isDigit && c != 'e' && c != 'E' && c != '.') = true := by
    decide
  intro c hc
  have hletter := List.all_eq_true.mp hsafe c (h c hc)
  simp only [Bool.and_eq_true, Bool.not_eq_true', bne_iff_ne] at hletter
  obtain ⟨⟨⟨hdigit, he⟩, hE⟩, hpoint⟩ := hletter
  exact ⟨hdigit, he, hE, fun heq => absurd heq hpoint⟩

theorem Leads.skipBlanks {rest : List Char} (h : Leads rest) : skipBlanks rest = rest := by
  have hsafe : letters.all (fun c => !isBlank c) = true := by
    decide
  cases rest with
  | nil => rfl
  | cons c rest =>
    have hletter := List.all_eq_true.mp hsafe c (h c rfl)
    rw [Bool.not_eq_true'] at hletter
    rw [PathData.skipBlanks, List.dropWhile_cons, hletter]
    rfl

/-- The text is read as a command, whatever commands follow and whatever letter was before. -/
def Reads (pen : Point Rat) (c : PathCommand Rat) (cs : List Char) : Prop :=
  ∀ rest, Leads rest → ∀ again, ∃ again', command? again pen (cs ++ rest) =
    some (c, again', rest)

section

variable {ch : Char} (letter : Letter) (hch : Letter.ofChar? ch = some letter)
  {pen p : Point Rat} {x y : Rat}

include hch

theorem command?_letter (again : Option Letter) {args rest : List Char}
    (hargs : skipBlanks args = args) (hpoint : letter.point? pen args = some (p, rest)) :
    command? again pen (ch :: args) = some (letter.command p, some letter.again, rest) := by
  unfold command?
  split
  case h_1 heq =>
    cases heq
    cases hch
  case h_2 heq =>
    cases heq
    cases hch
  case h_3 =>
    have hletter : letter? again (ch :: args) = some (letter, args) := by
      rw [letter?, hch, hargs]
    rw [hletter, Option.bind_some]
    dsimp only
    rw [hpoint]
    rfl

theorem reads_both (hverb : letter.verb = .move ∨ letter.verb = .line) (hx : Exact.Ends x)
    (hy : Exact.Ends y) (hp : letter.target pen (some x) (some y) = p) :
    Reads pen (letter.command p) (twoCoordinates ch x y) := by
  intro rest hrest again
  have hfirst := spells_coordinate hx
  obtain ⟨middle, hread, hnext⟩ := number?_pair hfirst (spells_coordinate hy) (hrest.stops _)
  have hpoint := Letter.point?_both pen hverb hread hnext
  rw [hp] at hpoint
  exact ⟨_, command?_letter letter hch again (hfirst.skipBlanks_pair _ rest) hpoint⟩

theorem reads_across (hverb : letter.verb = .across) (hx : Exact.Ends x)
    (hp : letter.target pen (some x) none = p) :
    Reads pen (letter.command p) (ch :: coordinate x) := by
  intro rest hrest again
  have hspells := spells_coordinate hx
  have hpoint := Letter.point?_across pen hverb (hspells.read rest (hrest.stops _))
  rw [hp] at hpoint
  exact ⟨_, command?_letter letter hch again (hspells.skipBlanks_append rest) hpoint⟩

theorem reads_upright (hverb : letter.verb = .upright) (hy : Exact.Ends y)
    (hp : letter.target pen none (some y) = p) :
    Reads pen (letter.command p) (ch :: coordinate y) := by
  intro rest hrest again
  have hspells := spells_coordinate hy
  have hpoint := Letter.point?_upright pen hverb (hspells.read rest (hrest.stops _))
  rw [hp] at hpoint
  exact ⟨_, command?_letter letter hch again (hspells.skipBlanks_append rest) hpoint⟩

end

/-- What holds of both forms of a command holds of the one that is written. -/
theorem shorter_of (holds : List Char → Prop) {first second : List Char}
    (hfirst : holds first) (hsecond : holds second) : holds (shorter first second) := by
  rw [shorter]
  split
  · exact hsecond
  · exact hfirst

theorem segment_head (unit : Rat) (pen : Pen Rat) (c : PathCommand Rat) :
    ∃ ch args, segment unit pen c = ch :: args ∧ ch ∈ letters := by
  let starts (cs : List Char) : Prop := ∃ ch args, cs = ch :: args ∧ ch ∈ letters
  cases c with
  | moveTo p => exact shorter_of starts ⟨'M', _, rfl, by decide⟩ ⟨'m', _, rfl, by decide⟩
  | lineTo p =>
    unfold segment
    dsimp only
    split
    · exact shorter_of starts ⟨'H', _, rfl, by decide⟩ ⟨'h', _, rfl, by decide⟩
    · split
      · exact shorter_of starts ⟨'V', _, rfl, by decide⟩ ⟨'v', _, rfl, by decide⟩
      · exact shorter_of starts ⟨'L', _, rfl, by decide⟩ ⟨'l', _, rfl, by decide⟩
  | close => exact ⟨'z', [], rfl, by decide⟩

theorem leads_segment (unit : Rat) (pen : Pen Rat) (c : PathCommand Rat) (rest : List Char) :
    segment unit pen c ++ rest ≠ [] ∧ Leads (segment unit pen c ++ rest) := by
  obtain ⟨ch, args, hsegment, hch⟩ := segment_head unit pen c
  rw [hsegment]
  refine ⟨nofun, ?_⟩
  rintro _ ⟨⟩
  exact hch

section

variable (hunit : ∃ digits : Int, unit = 10 ^ digits)

include hunit

theorem ends_of_onGrid {x : Rat} (hx : OnGrid unit x) : Exact.Ends x := by
  obtain ⟨k, rfl⟩ := hx
  exact Exact.ends_div k hunit

theorem unit_ne_zero : unit ≠ 0 := by
  obtain ⟨digits, rfl⟩ := hunit
  positivity

section

variable {pen p : Point Rat} (hp : p.OnGrid unit) (hpen : pen.OnGrid unit) {verb : Verb}
  {upper lower : Char} (hupper : Letter.ofChar? upper = some ⟨verb, false⟩)
  (hlower : Letter.ofChar? lower = some ⟨verb, true⟩)

include hp hpen hupper hlower

/-- Both forms with two coordinates lead to the point. -/
theorem reads_shorter_both (hverb : verb = .move ∨ verb = .line) :
    Reads pen (Letter.command ⟨verb, false⟩ p)
      (shorter (twoCoordinates upper p.x p.y)
        (twoCoordinates lower (p.x - pen.x) (p.y - pen.y))) := by
  have hrelative : Letter.target ⟨verb, true⟩ pen (some (p.x - pen.x)) (some (p.y - pen.y)) =
      p := by
    simp [Letter.target]
  refine shorter_of _ ?_ ?_
  · exact reads_both ⟨verb, false⟩ hupper hverb (ends_of_onGrid hunit hp.1)
      (ends_of_onGrid hunit hp.2) rfl
  · exact reads_both ⟨verb, true⟩ hlower hverb (ends_of_onGrid hunit (hp.1.sub hpen.1))
      (ends_of_onGrid hunit (hp.2.sub hpen.2)) hrelative

/-- Both forms with the first coordinate lead to a point at the height of the pen. -/
theorem reads_shorter_across (hverb : verb = .across) (hlevel : p.y = pen.y) :
    Reads pen (Letter.command ⟨verb, false⟩ p)
      (shorter (upper :: coordinate p.x) (lower :: coordinate (p.x - pen.x))) := by
  have habsolute : Letter.target ⟨verb, false⟩ pen (some p.x) none = p := by
    simp [Letter.target, ← hlevel]
  have hrelative : Letter.target ⟨verb, true⟩ pen (some (p.x - pen.x)) none = p := by
    simp [Letter.target, ← hlevel]
  refine shorter_of _ ?_ ?_
  · exact reads_across ⟨verb, false⟩ hupper hverb (ends_of_onGrid hunit hp.1) habsolute
  · exact reads_across ⟨verb, true⟩ hlower hverb
      (ends_of_onGrid hunit (hp.1.sub hpen.1)) hrelative

/-- Both forms with the second coordinate lead to a point above or below the pen. -/
theorem reads_shorter_upright (hverb : verb = .upright) (hupright : p.x = pen.x) :
    Reads pen (Letter.command ⟨verb, false⟩ p)
      (shorter (upper :: coordinate p.y) (lower :: coordinate (p.y - pen.y))) := by
  have habsolute : Letter.target ⟨verb, false⟩ pen none (some p.y) = p := by
    simp [Letter.target, ← hupright]
  have hrelative : Letter.target ⟨verb, true⟩ pen none (some (p.y - pen.y)) = p := by
    simp [Letter.target, ← hupright]
  refine shorter_of _ ?_ ?_
  · exact reads_upright ⟨verb, false⟩ hupper hverb (ends_of_onGrid hunit hp.2) habsolute
  · exact reads_upright ⟨verb, true⟩ hlower hverb
      (ends_of_onGrid hunit (hp.2.sub hpen.2)) hrelative

end

/-- **A command is read back** from the form that is written. -/
theorem reads_segment {pen : Pen Rat} {c : PathCommand Rat} (hc : c.OnGrid unit)
    (hpen : pen.position.OnGrid unit) : Reads pen.position c (segment unit pen c) := by
  have hne := unit_ne_zero hunit
  cases c with
  | close => exact fun rest _ again => ⟨none, rfl⟩
  | moveTo p =>
    rw [segment, (hc.1.sub hpen.1).roundTo hne, (hc.2.sub hpen.2).roundTo hne]
    exact reads_shorter_both hunit hc hpen rfl rfl (.inl rfl)
  | lineTo p =>
    rw [segment, (hc.1.sub hpen.1).roundTo hne, (hc.2.sub hpen.2).roundTo hne]
    split
    case isTrue hlevel =>
      rw [Exact.zero_lit, beq_iff_eq, sub_eq_zero] at hlevel
      exact reads_shorter_across hunit hc hpen rfl rfl rfl hlevel
    case isFalse =>
      split
      case isTrue hupright =>
        rw [Exact.zero_lit, beq_iff_eq, sub_eq_zero] at hupright
        exact reads_shorter_upright hunit hc hpen rfl rfl rfl hupright
      case isFalse => exact reads_shorter_both hunit hc hpen rfl rfl (.inr rfl)

/-! ### Chains of commands -/

/-- Both places that the pen remembers are on the grid. -/
structure Pen.OnGrid (unit : Rat) (pen : Pen Rat) : Prop where
  start : pen.start.OnGrid unit
  position : pen.position.OnGrid unit

omit hunit in
theorem Pen.OnGrid.after {pen : Pen Rat} (h : pen.OnGrid unit) {c : PathCommand Rat}
    (hc : c.OnGrid unit) : (pen.after c).OnGrid unit := by
  cases c with
  | moveTo p => exact ⟨hc, hc⟩
  | lineTo p => exact ⟨h.start, hc⟩
  | close => exact ⟨h.start, h.start⟩

/-- The pen of the writer is where the reader is. -/
structure Cursor.Follows (cursor : Cursor) (pen : Pen Rat) : Prop where
  current : cursor.current = pen.position
  initial : cursor.initial = pen.start

omit hunit in
theorem Cursor.follows_origin : Cursor.origin.Follows Pen.origin := by
  have hzero : (⟨0, 0⟩ : Point Rat) = ⟨0.0, 0.0⟩ := by
    rw [Exact.zero_lit]
  exact ⟨hzero, hzero⟩

omit hunit in
/-- **Every command takes the pen where it takes the reader.** -/
theorem Cursor.Follows.next {cursor : Cursor} {pen : Pen Rat} (h : cursor.Follows pen)
    (c : PathCommand Rat) : (cursor.next c).Follows (pen.after c) := by
  cases c with
  | moveTo p => exact ⟨rfl, rfl⟩
  | lineTo p => exact ⟨rfl, h.initial⟩
  | close => exact ⟨h.initial, h.initial⟩

/-- **A chain of commands is read back**, by a reader who is where the pen is. -/
theorem commands?_text {pen : Pen Rat} (hpen : pen.OnGrid unit) {cursor : Cursor}
    (hcursor : cursor.Follows pen) {cs : List (PathCommand Rat)}
    (hcs : ∀ c ∈ cs, c.OnGrid unit) (again : Option Letter) :
    commands? again cursor (text unit pen cs) = some cs := by
  induction cs generalizing pen cursor again with
  | nil =>
    rw [commands?]
    rfl
  | cons c cs ih =>
    have hc := hcs c List.mem_cons_self
    -- the rest starts with a letter or is empty, so it ends the last number of `c`
    have hleads : Leads (text unit (pen.after c) cs) := by
      cases cs with
      | nil => exact nofun
      | cons d cs => exact (leads_segment unit (pen.after c) d _).2
    obtain ⟨again', hread⟩ := reads_segment hunit hc hpen.position _ hleads again
    rw [← hcursor.current] at hread
    obtain ⟨hne, hskip⟩ := leads_segment unit pen c (text unit (pen.after c) cs)
    have hrest :=
      ih (hpen.after hc) (hcursor.next c)
        (fun d hd => hcs d (List.mem_cons_of_mem c hd)) again'
    rw [commands?, text, hskip.skipBlanks, if_neg hne]
    split
    case h_1 heq =>
      rw [hread] at heq
      cases heq
    case h_2 heq =>
      rw [hread] at heq
      cases heq
      rw [hrest]
      rfl

end

/-! ### The absolute form -/

/-- A command with absolute coordinates. -/
def absolute : PathCommand Rat → List Char
  | .moveTo p => twoCoordinates 'M' p.x p.y
  | .lineTo p => twoCoordinates 'L' p.x p.y
  | .close => ['z']

theorem length_shorter_le (first second : List Char) :
    (shorter first second).length ≤ first.length := by
  rw [shorter]
  split
  case isTrue h => exact h.le
  case isFalse => exact le_rfl

theorem length_segment_le (unit : Rat) (pen : Pen Rat) (c : PathCommand Rat) :
    (segment unit pen c).length ≤ (absolute c).length := by
  cases c with
  | moveTo p => exact length_shorter_le _ _
  | lineTo p =>
    have hpair : (coordinate p.x).length ≤ (pair (coordinate p.x) (coordinate p.y)).length ∧
        (coordinate p.y).length ≤ (pair (coordinate p.x) (coordinate p.y)).length := by
      rcases pair_cases (coordinate p.x) (coordinate p.y) with heq | heq
      · rw [heq, List.length_append, List.length_cons]
        omega
      · rw [heq, List.length_append]
        omega
    unfold segment
    dsimp only
    split
    · exact (length_shorter_le _ _).trans (Nat.succ_le_succ hpair.1)
    · split
      · exact (length_shorter_le _ _).trans (Nat.succ_le_succ hpair.2)
      · exact length_shorter_le _ _
  | close => exact le_rfl

theorem length_text_le (unit : Rat) (pen : Pen Rat) (cs : List (PathCommand Rat)) :
    (text unit pen cs).length ≤ (cs.flatMap absolute).length := by
  induction cs generalizing pen with
  | nil => exact le_rfl
  | cons c cs ih =>
    rw [text, List.flatMap_cons, List.length_append, List.length_append]
    exact Nat.add_le_add (length_segment_le unit pen c) (ih _)

end PathData

/-! ### Paths -/

namespace Path

/-- A path after one call. -/
def call (path : Path Rat) : PathCommand Rat → Path Rat
  | .moveTo p => path.moveTo p.x p.y
  | .lineTo p => path.lineTo p.x p.y
  | .close => path.close

/-- A path after some calls, in order. -/
def draw (path : Path Rat) (calls : List (PathCommand Rat)) : Path Rat :=
  calls.foldl call path

theorem onGrid_call {path : Path Rat} (h : ∀ c ∈ path.commands.toList, c.OnGrid path.unit)
    (c : PathCommand Rat) :
    (path.call c).unit = path.unit ∧ ∀ d ∈ (path.call c).commands.toList,
      d.OnGrid path.unit := by
  have hround (p : Point Rat) : (p.round path.unit).OnGrid path.unit :=
    ⟨onGrid_roundTo p.x, onGrid_roundTo p.y⟩
  have hpush {d : PathCommand Rat} (hd : d.OnGrid path.unit) :
      ∀ e ∈ (path.commands.push d).toList, e.OnGrid path.unit := by
    intro e he
    rw [Array.toList_push, List.mem_append, List.mem_singleton] at he
    rcases he with he | rfl
    · exact h e he
    · exact hd
  cases c with
  | moveTo p => exact ⟨rfl, hpush (d := .moveTo (p.round path.unit)) (hround p)⟩
  | lineTo p =>
    refine ⟨unit_lineTo path p.x p.y, ?_⟩
    rw [call, lineTo]
    split
    · exact h
    · exact hpush (d := .lineTo (p.round path.unit)) (hround p)
  | close => exact ⟨rfl, hpush (d := .close) trivial⟩

/-- Whatever is called, the coordinates stay on the grid. -/
theorem onGrid_draw {path : Path Rat} (h : ∀ c ∈ path.commands.toList, c.OnGrid path.unit)
    (calls : List (PathCommand Rat)) : (path.draw calls).unit = path.unit ∧
      ∀ c ∈ (path.draw calls).commands.toList, c.OnGrid path.unit := by
  induction calls generalizing path with
  | nil => exact ⟨rfl, h⟩
  | cons c calls ih =>
    obtain ⟨hunit, hcall⟩ := onGrid_call h c
    rw [← hunit] at hcall
    obtain ⟨hunit', hdraw⟩ := ih hcall
    rw [hunit] at hunit' hdraw
    exact ⟨hunit', hdraw⟩

/-- **Path data is read back** as the commands of the path, whatever is drawn with whatever
precision; and it is not longer than all commands in absolute form. -/
theorem read_data (digits : Int) (calls : List (PathCommand Rat)) :
    let path := (withPrecision digits).draw calls
    PathData.read? path.data = some path.commands.toList ∧
      path.data.length ≤ (path.commands.toList.flatMap PathData.absolute).length := by
  intro path
  have hstart : ∀ c ∈ (withPrecision digits : Path Rat).commands.toList,
      c.OnGrid (withPrecision digits : Path Rat).unit := nofun
  obtain ⟨hunit, hgrid⟩ := onGrid_draw hstart calls
  have horigin : (PathData.Pen.origin : PathData.Pen Rat).OnGrid path.unit := by
    have hzero : OnGrid path.unit 0.0 := Exact.zero_lit.symm ▸ onGrid_zero
    exact ⟨⟨hzero, hzero⟩, ⟨hzero, hzero⟩⟩
  have hpower : ∃ n : Int, path.unit = 10 ^ n :=
    ⟨digits, hunit.trans (Scalar.tenPow_eq digits)⟩
  rw [← hunit] at hgrid
  constructor
  · rw [PathData.read?, data, String.toList_ofList]
    exact PathData.commands?_text hpower horigin PathData.Cursor.follows_origin hgrid none
  · rw [data, String.length_ofList]
    exact PathData.length_text_le _ _ _

end Path

end LineCharts
