import TradingEcosystem.Backtest.TapeReader

namespace Backtest

open Common Exchange Trading

section Reader

def takeEvents (cfg : TapeReaderCfg) : ℕ → List (List Char) → Outcome (List TapeEvent)
  | _, [] => pure []
  | 0, _ => pure []
  | n + 1, line :: rest => do
      match ← parseLine cfg line with
      | none => takeEvents cfg (n + 1) rest
      | some ev => do
          let evs ← takeEvents cfg n rest
          pure (ev :: evs)

variable {r : TapeReader} {dtNs : ℚ → ℤ}

theorem nextBinance_lines (r : TapeReader) (old lines : List (List Char)) :
    ({ r with lines := old }).nextBinance lines = r.nextBinance lines := by
  induction lines with
  | nil => rfl
  | cons line rest ih =>
    rw [TapeReader.nextBinance, TapeReader.nextBinance]
    refine bind_congr fun ev => ?_
    cases ev with
    | none => exact ih
    | some ev => rfl

/-- A call that is not held back by `max_events`. -/
def Open (r : TapeReader) : Prop :=
  r.eof = false ∧ ¬ (r.cfg.maxEvents ≠ 0 ∧ r.cfg.maxEvents ≤ r.count)

theorem next_binance (hf : r.cfg.format = .binance) (hr : Open r) :
    r.next dtNs = r.nextBinance r.lines >>= fun p =>
      pure (p.1, if p.1.isSome then { p.2 with count := p.2.count + 1 } else p.2) := by
  rw [TapeReader.next, hr.1, if_neg (by decide), if_neg hr.2, TapeReader.nextOf, hf]

def Allows (r : TapeReader) (n : ℕ) : Prop :=
  if r.cfg.maxEvents = 0 then r.lines.length ≤ n else r.count + n = r.cfg.maxEvents

theorem Allows.isOpen {n : ℕ} (h : Allows r (n + 1)) (heof : r.eof = false) : Open r := by
  refine ⟨heof, ?_⟩
  rintro ⟨hne, hle⟩
  rw [Allows, if_neg hne] at h
  omega

theorem drain_binance {n fuel : ℕ} (hf : r.cfg.format = .binance) (heof : r.eof = false)
    (hn : Allows r n) (hfuel : r.lines.length < fuel) :
    r.drain dtNs fuel = takeEvents r.cfg n r.lines := by
  generalize hlines : r.lines = lines at hfuel ⊢
  induction lines generalizing r n fuel with
  | nil =>
    obtain ⟨fuel, rfl⟩ := Nat.exists_eq_add_of_lt hfuel
    have hend : ∃ r', r.next dtNs = .ok (none, r') := by
      by_cases hr : Open r
      · rw [next_binance hf hr, hlines]
        exact ⟨_, rfl⟩
      · have hmax : r.cfg.maxEvents ≠ 0 ∧ r.cfg.maxEvents ≤ r.count := by
          by_contra hc
          exact hr ⟨heof, hc⟩
        rw [TapeReader.next, heof, if_neg (by decide), if_pos hmax]
        exact ⟨_, rfl⟩
    obtain ⟨r', hnext⟩ := hend
    rw [TapeReader.drain, hnext]
    cases n <;> rfl
  | cons line rest ih =>
    obtain ⟨fuel, rfl⟩ := Nat.exists_eq_add_of_lt hfuel
    cases n with
    | zero =>
      have hmax : r.cfg.maxEvents ≠ 0 ∧ r.cfg.maxEvents ≤ r.count := by
        unfold Allows at hn
        rw [hlines] at hn
        split_ifs at hn with hzero
        · exact absurd hn (Nat.not_succ_le_zero _)
        · exact ⟨hzero, by omega⟩
      rw [TapeReader.drain, TapeReader.next, heof, if_neg (by decide), if_pos hmax]
      rfl
    | succ n =>
      have hr := hn.isOpen heof
      rw [TapeReader.drain, next_binance hf hr, hlines, TapeReader.nextBinance, takeEvents]
      cases hline : parseLine r.cfg line with
      | error f => rfl
      | ok ev =>
        rw [ok_bind, ok_bind]
        cases ev with
        | none =>
          -- the line is skipped: the call goes on as one on the rest of the file
          have hr' : Open { r with lines := rest } := hr
          have hrest : TapeReader.drain dtNs ((line :: rest).length + fuel + 1)
              { r with lines := rest } = takeEvents r.cfg (n + 1) rest := by
            refine ih hf heof ?_ rfl (by rw [List.length_cons]; omega)
            unfold Allows at hn ⊢
            rw [hlines] at hn
            split_ifs at hn ⊢
            · exact Nat.le_of_succ_le hn
            · exact hn
          rw [TapeReader.drain, next_binance (r := { r with lines := rest }) hf hr',
            nextBinance_lines] at hrest
          exact hrest
        | some ev =>
          have hrest : TapeReader.drain dtNs ((line :: rest).length + fuel)
              { r with lines := rest, count := r.count + 1 } = takeEvents r.cfg n rest := by
            refine ih hf heof ?_ rfl (by rw [List.length_cons]; omega)
            unfold Allows at hn ⊢
            rw [hlines] at hn
            split_ifs at hn ⊢
            · exact Nat.le_of_succ_le_succ hn
            · dsimp only
              omega
          rw [← hrest]
          rfl

end Reader

structure TapeRow where
  tsNs : ℤ
  kind : List Char
  price : List Char
  qty : List Char
  bidPrice : List Char
  bidQty : List Char
  askPrice : List Char
  askQty : List Char
  isBuyerMaker : List Char

namespace TapeRow

def texts (r : TapeRow) : List (List Char) :=
  [r.kind, r.price, r.qty, r.bidPrice, r.bidQty, r.askPrice, r.askQty, r.isBuyerMaker]

def fields (r : TapeRow) : List (List Char) := Decimal.intText r.tsNs :: r.texts

end TapeRow

def quoteMark : Char := Char.ofNat 34

def special (c : Char) : Bool := c = ',' || c = quoteMark || c = '\r' || c = '\n'

def plainText (s : List Char) : Bool := s.all fun c => !special c

def writeField (s : List Char) : List Char :=
  if s.any special then
    quoteMark :: (s.flatMap fun c => if c = quoteMark then [c, c] else [c]) ++ [quoteMark]
  else s

def writeRow (fields : List (List Char)) : List Char :=
  List.intercalate [','] (fields.map writeField) ++ ['\r', '\n']

def header : List (List Char) :=
  ["ts_ns".toList, "kind".toList, "price".toList, "qty".toList, "bid_price".toList,
    "bid_qty".toList, "ask_price".toList, "ask_qty".toList, "is_buyer_maker".toList]

def tapeFile (rows : List TapeRow) : List Char :=
  (header :: rows.map TapeRow.fields).flatMap writeRow

def TapeRow.Plain (r : TapeRow) : Prop := ∀ s ∈ r.texts, plainText s

instance (r : TapeRow) : Decidable r.Plain :=
  inferInstanceAs (Decidable (∀ s ∈ r.texts, plainText s))

def isNumberChar (c : Char) : Bool :=
  c.isDigit || c = '.' || c = '-' || c = '+' || c = 'e' || c = 'E'

/-- A text in decimal, of a number that is normal as a `double`. -/
def plainNumber (s : List Char) : Bool :=
  s.all isNumberChar &&
    (Decimal.number s).all fun x => decide (x = 0 ∨ 1 / 10 ^ 300 ≤ |x| ∧ |x| ≤ 10 ^ 300)

def TapeRow.numbers (r : TapeRow) : List (List Char) :=
  [r.price, r.qty, r.bidPrice, r.bidQty, r.askPrice, r.askQty]

def TapeRow.Numeric (r : TapeRow) : Prop := ∀ s ∈ r.numbers, plainNumber s

instance (r : TapeRow) : Decidable r.Numeric :=
  inferInstanceAs (Decidable (∀ s ∈ r.numbers, plainNumber s))

def rowEvent (cfg : TapeReaderCfg) (r : TapeRow) : Outcome (Option TapeEvent) := do
  let tsNs ← toNanos r.tsNs
  if r.kind = ['B'] then do
    let bidPrice ← toTicks cfg r.bidPrice
    let bidQty ← toLots cfg r.bidQty
    let askPrice ← toTicks cfg r.askPrice
    let askQty ← toLots cfg r.askQty
    pure (some (.book ⟨tsNs, bidPrice, bidQty, askPrice, askQty⟩))
  else if r.kind = ['T'] then do
    let price ← toTicks cfg r.price
    let qty ← toLots cfg r.qty
    pure (some (.trade ⟨tsNs, price, qty, if isSet r.isBuyerMaker then .sell else .buy⟩))
  else pure none

section Writer

variable {r : TapeRow} {cfg : TapeReaderCfg}

theorem special_of_plainText {s : List Char} (h : plainText s) : ∀ c ∈ s, special c = false := by
  intro c hc
  simpa using List.all_eq_true.mp h c hc

theorem special_of_isDigit {d : Char} (hd : d.isDigit = true) : special d = false := by
  cases hs : special d with
  | false => rfl
  | true =>
    simp only [special, Bool.or_eq_true, decide_eq_true_eq] at hs
    rcases hs with ((rfl | rfl) | rfl) | rfl <;> cases hd

theorem special_intText (x : ℤ) : ∀ c ∈ Decimal.intText x, special c = false := by
  intro c hc
  rcases List.mem_append.mp hc with hc | hc
  · split_ifs at hc
    · rw [List.mem_singleton.mp hc]
      rfl
    · cases hc
  · exact special_of_isDigit (Decimal.isDigit_toDigits _ c hc)

theorem TapeRow.Plain.fields (h : r.Plain) : ∀ s ∈ r.fields, ∀ c ∈ s, special c = false := by
  intro s hs
  rcases List.mem_cons.mp hs with rfl | hs
  · exact special_intText r.tsNs
  · exact special_of_plainText (h s hs)

theorem writeRow_plain {fields : List (List Char)} (h : ∀ s ∈ fields, ∀ c ∈ s, special c = false) :
    writeRow fields = (List.intercalate [','] fields ++ ['\r']) ++ ['\n'] := by
  have hmap : fields.map writeField = fields := by
    refine (List.map_congr_left fun s hs => ?_).trans (List.map_id fields)
    rw [writeField, if_neg]
    · rfl
    · rw [Bool.not_eq_true, List.any_eq_false]
      exact fun c hc => by simp [h s hs c hc]
  rw [writeRow, hmap, List.append_assoc]
  rfl

/-- What `getline` gets back of a row that has been written. -/
def lineOf (fields : List (List Char)) : List Char := List.intercalate [','] fields ++ ['\r']

theorem pieces_tapeFile {rows : List TapeRow} (h : ∀ r ∈ rows, r.Plain) :
    Delimited.pieces '\n' (tapeFile rows) =
      lineOf header :: rows.map fun r => lineOf r.fields := by
  have hheader : ∀ s ∈ header, plainText s := by decide
  have hall : ∀ fields ∈ header :: rows.map TapeRow.fields,
      ∀ s ∈ fields, ∀ c ∈ s, special c = false := by
    intro fields hf
    rcases List.mem_cons.mp hf with rfl | hf
    · exact fun s hs => special_of_plainText (hheader s hs)
    · obtain ⟨r, hr, rfl⟩ := List.mem_map.mp hf
      exact (h r hr).fields
  have hfile : tapeFile rows = Delimited.lines '\n' ((header :: rows.map TapeRow.fields).map lineOf) := by
    rw [tapeFile, Delimited.lines, List.flatMap_map]
    exact List.flatMap_congr fun fields hf => writeRow_plain (hall fields hf)
  rw [hfile, Delimited.pieces_lines]
  · simp
  · intro line hline
    obtain ⟨fields, hf, rfl⟩ := List.mem_map.mp hline
    intro hc
    rcases List.mem_append.mp hc with hc | hc
    · rcases Delimited.mem_intercalate hc with hc | ⟨s, hs, hcs⟩
      · exact absurd hc (by decide)
      · exact absurd (hall fields hf s hs _ hcs) (by decide)
    · exact absurd (List.mem_singleton.mp hc) (by decide)

theorem parseLine_header : parseLine cfg (lineOf header) = .ok none := rfl

theorem isHeader_lineOf (r : TapeRow) : isHeader (lineOf r.fields) = false := by
  obtain ⟨c, cs, hc, hfirst⟩ := Decimal.head_intText r.tsNs
  have hline : lineOf r.fields = c :: (cs ++ List.intercalate [','] ([] :: r.texts) ++ ['\r']) := by
    rw [lineOf, TapeRow.fields, hc, TapeRow.texts]
    simp [List.intercalate]
  rw [hline, isHeader]
  rcases hfirst with rfl | hdigit
  · rfl
  · rw [Bool.or_eq_false_iff, decide_eq_false_iff_not, decide_eq_false_iff_not]
    refine ⟨?_, ?_⟩ <;> rintro rfl <;> cases hdigit

theorem pieces_lineOf (h : r.Plain) : Delimited.pieces ',' (lineOf r.fields) =
    [Decimal.intText r.tsNs, r.kind, r.price, r.qty, r.bidPrice, r.bidQty, r.askPrice, r.askQty,
      r.isBuyerMaker ++ ['\r']] := by
  have hcomma : ∀ s ∈ r.fields, ',' ∉ s := fun s hs hc => by
    exact absurd (h.fields s hs _ hc) (by decide)
  set first := [Decimal.intText r.tsNs, r.kind, r.price, r.qty, r.bidPrice, r.bidQty, r.askPrice,
    r.askQty] with hfirst
  have hfields : r.fields = first ++ [r.isBuyerMaker] := rfl
  rw [lineOf, hfields, Delimited.intercalate_concat, List.append_assoc, Delimited.pieces_fields]
  · rfl
  · exact fun s hs => hcomma s (by rw [hfields]; exact List.mem_append_left _ hs)
  · intro hc
    rcases List.mem_append.mp hc with hc | hc
    · exact hcomma r.isBuyerMaker (by rw [hfields]; simp) hc
    · exact absurd (List.mem_singleton.mp hc) (by decide)
  · exact List.append_ne_nil_of_right_ne_nil _ (List.cons_ne_nil _ _)

theorem stoll_intText (x : ℤ) : stoll (Decimal.intText x) = toNanos x := by
  have h := Decimal.int_intText x (s := []) (by rintro c ⟨⟩)
  rw [List.append_nil] at h
  rw [stoll, h]

theorem isSet_append (s : List Char) : isSet (s ++ ['\r']) = isSet s := by
  cases s <;> rfl

theorem parseLine_lineOf (h : r.Plain) : parseLine cfg (lineOf r.fields) = rowEvent cfg r := by
  rw [parseLine, isHeader_lineOf, if_neg (by decide), pieces_lineOf h]
  dsimp only
  rw [stoll_intText, rowEvent, List.headD_cons, isSet_append]

def rowEvents (cfg : TapeReaderCfg) : ℕ → List TapeRow → Outcome (List TapeEvent)
  | _, [] => pure []
  | 0, _ => pure []
  | n + 1, r :: rs => do
      match ← rowEvent cfg r with
      | none => rowEvents cfg (n + 1) rs
      | some ev => do
          let evs ← rowEvents cfg n rs
          pure (ev :: evs)

theorem takeEvents_lines {n : ℕ} {rows : List TapeRow} (h : ∀ r ∈ rows, r.Plain) :
    takeEvents cfg n (rows.map fun r => lineOf r.fields) = rowEvents cfg n rows := by
  induction rows generalizing n with
  | nil => cases n <;> rfl
  | cons r rows ih =>
    have hrest := fun n => ih (n := n) fun x hx => h x (List.mem_cons_of_mem _ hx)
    cases n with
    | zero => rfl
    | succ n =>
      rw [List.map_cons, takeEvents, rowEvents, parseLine_lineOf (h r (List.mem_cons_self ..))]
      refine bind_congr fun ev => ?_
      cases ev with
      | none => exact hrest (n + 1)
      | some ev =>
        dsimp only
        rw [hrest n]

def TapeReaderCfg.allowance (cfg : TapeReaderCfg) (n : ℕ) : ℕ :=
  if cfg.maxEvents = 0 then n else cfg.maxEvents

theorem drain_tapeFile (dtNs : ℚ → ℤ) {rows : List TapeRow} (hf : cfg.format = .binance)
    (h : ∀ r ∈ rows, r.Plain) {fuel : ℕ} (hfuel : rows.length + 1 < fuel) :
    (TapeReader.new cfg (tapeFile rows)).drain dtNs fuel =
      rowEvents cfg (cfg.allowance (rows.length + 1)) rows := by
  have hlines : (TapeReader.new cfg (tapeFile rows)).lines =
      lineOf header :: rows.map fun r => lineOf r.fields := pieces_tapeFile h
  have hlen : (TapeReader.new cfg (tapeFile rows)).lines.length = rows.length + 1 := by
    rw [hlines, List.length_cons, List.length_map]
  have hallows : Allows (TapeReader.new cfg (tapeFile rows)) (cfg.allowance (rows.length + 1)) := by
    unfold Allows TapeReaderCfg.allowance
    change if cfg.maxEvents = 0 then _ else 0 + _ = cfg.maxEvents
    by_cases hzero : cfg.maxEvents = 0
    · rw [if_pos hzero, if_pos hzero]
      exact hlen.le
    · rw [if_neg hzero, if_neg hzero, Nat.zero_add]
  rw [drain_binance hf rfl hallows (by rw [hlen]; exact hfuel), hlines, ← takeEvents_lines h]
  change takeEvents cfg _ _ = _
  cases hn : cfg.allowance (rows.length + 1) with
  | zero =>
    cases rows <;> rfl
  | succ n =>
    rw [takeEvents, parseLine_header, ok_bind]

end Writer

end Backtest
