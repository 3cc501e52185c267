/-
# The prices of a tick

The same book is written out twice: `log_bbo` prints its best prices with `%g`, which has six
significant digits, and `level_pair` prints the levels of a snapshot with `%.8g`.  A price that is
a multiple of `0.01` below a million has up to eight digits.  So a level pair always shows the
price, and a tick shows it if and only if six digits are enough (`tick_prices_iff`).
-/
import TickPlant.Logger.TickLogger
import TickPlant.Server.Protocol
import TickPlant.Lib.Number

namespace TickPlant.TickLogger

open Lib

/-! ## Reading the prices back -/

/-- A line that is enqueued is the whole text. -/
lemma eq_ilpText_of_ilpLine {fmtG : ℚ → Bytes} {t : BboTick} {line : Bytes}
    (h : ilpLine fmtG t = some line) : line = ilpText fmtG t := by
  rw [ilpLine, Option.ite_none_left_eq_some] at h
  exact (Option.some.inj h.2).symm

/-- What stands before the bid in the line of a tick. -/
def lineStart (t : BboTick) : Bytes :=
  bytes "order_book,exchange=" ++ cString t.exchange ++ bytes ",symbol=" ++ cString t.symbol ++
    bytes " bid="

/-- The text up to the next comma. -/
def upToComma (s : Bytes) : Bytes := s.takeWhile (· ≠ 44)

/-- The text of the bid in a line of the tick. -/
def bidText (t : BboTick) (line : Bytes) : Bytes := upToComma (line.drop (lineStart t).length)

/-- The text of the ask in a line of the tick. -/
def askText (t : BboTick) (line : Bytes) : Bytes :=
  upToComma (line.drop (lineStart t ++ bidText t line ++ bytes ",ask=").length)

/-- The text of the price in a level pair. -/
def pairPrice (pair : Bytes) : Bytes := upToComma (pair.drop 1)

lemma upToComma_gText (p : ℕ) (q : ℚ) (rest : Bytes) :
    upToComma (gText p q ++ 44 :: rest) = gText p q := by
  refine (cut_append ?_ (by simp)).1
  intro b hb
  rw [decide_eq_true_eq]
  rintro rfl
  exact absurd (isGByte_gText hb) (by decide)

lemma bidText_ilpText (p : ℕ) (t : BboTick) :
    bidText t (ilpText (gText p) t) = gText p t.bidPx := by
  have hline : ∃ rest, ilpText (gText p) t = lineStart t ++ (gText p t.bidPx ++ 44 :: rest) := by
    refine ⟨bytes "ask=" ++ gText p t.askPx ++ bytes ",mid=" ++ gText p t.midPx ++
      bytes ",spread_bps=" ++ gText p t.spreadBps ++ bytes " " ++ toText t.timestampNs ++
      bytes "\n", ?_⟩
    rw [ilpText, lineStart]
    simp only [List.append_assoc]
    rfl
  obtain ⟨rest, hrest⟩ := hline
  rw [bidText, hrest, List.drop_left, upToComma_gText]

lemma askText_ilpText (p : ℕ) (t : BboTick) :
    askText t (ilpText (gText p) t) = gText p t.askPx := by
  have hline : ∃ rest, ilpText (gText p) t =
      (lineStart t ++ gText p t.bidPx ++ bytes ",ask=") ++ (gText p t.askPx ++ 44 :: rest) := by
    refine ⟨bytes "mid=" ++ gText p t.midPx ++ bytes ",spread_bps=" ++ gText p t.spreadBps ++
      bytes " " ++ toText t.timestampNs ++ bytes "\n", ?_⟩
    rw [ilpText, lineStart]
    simp only [List.append_assoc]
    rfl
  obtain ⟨rest, hrest⟩ := hline
  rw [askText, bidText_ilpText, hrest, List.drop_left, upToComma_gText]

lemma pairPrice_levelPair (p : ℕ) (lvl : PriceLevel) :
    pairPrice (levelPair (gText p) lvl) = gText p lvl.price := by
  have hpair : levelPair (gText p) lvl =
      91 :: (gText p lvl.price ++ 44 :: (gText p lvl.quantity ++ bytes "]")) := by
    rw [levelPair]
    simp only [List.append_assoc]
    rfl
  rw [pairPrice, hpair, List.drop_one, List.tail_cons, upToComma_gText]

/-! ## When the tick shows the prices -/

/-- A positive multiple of `0.01` below a million. -/
def IsCents (q : ℚ) : Prop := 0 < q ∧ q < 1000000 ∧ ∃ n : ℕ, q = n / 100

/-- Such a price has at most eight digits. -/
lemma IsCents.hasDigits {q : ℚ} (h : IsCents q) : HasDigits 8 q := by
  obtain ⟨-, hlt, n, rfl⟩ := h
  refine ⟨n, -2, ?_, ?_⟩
  · rw [div_lt_iff₀ (by norm_num)] at hlt
    have : n < 100000000 := by exact_mod_cast (by linarith : (n : ℚ) < 100000000)
    omega
  · rw [zpow_neg, div_eq_mul_inv]
    norm_num

/-- The line of a tick denotes the best prices of the book, which are also what the level pairs of
its best levels denote. -/
def PricesAgree (t : BboTick) (line : Bytes) (bid ask : PriceLevel) : Prop :=
  numberValue (bidText t line) = bid.price ∧ numberValue (askText t line) = ask.price ∧
    numberValue (bidText t line) = numberValue (pairPrice (levelPair (gText 8) bid)) ∧
    numberValue (askText t line) = numberValue (pairPrice (levelPair (gText 8) ask))

/-- The tick of a call carries the best prices of the book that the call has updated. -/
lemma tick_prices {nowNs : ℕ} {snap : OrderBookSnapshot} {e : ArbitrageEngine} {t : BboTick}
    {b : OrderBook} (ht : (e.updateOrderBook nowNs snap).2 = some t)
    (hb : (e.updateOrderBook nowNs snap).1.wsBooks.lookup (bookKey snap) = some b) :
    t.bidPx = b.bestBid ∧ t.askPx = b.bestAsk := by
  change (e.updateOrderBook nowNs snap).1.bboTick nowNs snap = some t at ht
  rw [ArbitrageEngine.bboTick, hb] at ht
  split at ht
  · dsimp only at ht
    split at ht
    · rw [← Option.some.inj ht]
      exact ⟨rfl, rfl⟩
    · cases ht
  · cases ht

/-- **When the stored tick is the served book.**  For every call of `update_order_book` that logs a
tick, with best prices that are positive multiples of `0.01` below a million: the line denotes
these prices, as the level pairs do, if and only if they have at most six digits. -/
theorem tick_prices_iff {nowNs : ℕ} {snap : OrderBookSnapshot} {e : ArbitrageEngine} {t : BboTick}
    {b : OrderBook} {bid ask : PriceLevel} {line : Bytes}
    (ht : (e.updateOrderBook nowNs snap).2 = some t)
    (hb : (e.updateOrderBook nowNs snap).1.wsBooks.lookup (bookKey snap) = some b)
    (hbid : b.bids.front? = some bid) (hask : b.asks.front? = some ask)
    (hcents : IsCents bid.price ∧ IsCents ask.price) (hline : ilpLine (gText 6) t = some line) :
    PricesAgree t line bid ask ↔ HasDigits 6 bid.price ∧ HasDigits 6 ask.price := by
  obtain ⟨hbest, hbest'⟩ := tick_prices ht hb
  have hbidPx : t.bidPx = bid.price := by rw [hbest, OrderBook.bestBid, hbid]; rfl
  have haskPx : t.askPx = ask.price := by rw [hbest', OrderBook.bestAsk, hask]; rfl
  obtain ⟨hcents, hcents'⟩ := hcents
  rw [PricesAgree, eq_ilpText_of_ilpLine hline, bidText_ilpText, askText_ilpText,
    pairPrice_levelPair, pairPrice_levelPair, hbidPx, haskPx,
    numberValue_gText (by norm_num) hcents.1 hcents.hasDigits,
    numberValue_gText (by norm_num) hcents'.1 hcents'.hasDigits,
    numberValue_gText_iff (by norm_num) hcents.1, numberValue_gText_iff (by norm_num) hcents'.1]
  exact ⟨fun h => ⟨h.1, h.2.1⟩, fun h => ⟨h.1, h.2, h⟩⟩

/-- A full snapshot of Binance with one level on each side. -/
def twoLevels (bid ask : ℚ) : OrderBookSnapshot :=
  ⟨bytes "BTCUSDT", bytes "Binance", 0, true, [⟨bid, 1, 0⟩], [⟨ask, 1, 0⟩]⟩

/-- Its book in an engine that had none. -/
def twoLevelBook (bid ask : ℚ) : OrderBook :=
  (OrderBook.new (bytes "BTCUSDT") (bytes "Binance")).applyBatch 0 (twoLevels bid ask)

lemma lookup_twoLevels (bid ask : ℚ) :
    ((ArbitrageEngine.new true).updateOrderBook 0 (twoLevels bid ask)).1.wsBooks.lookup
      (bookKey (twoLevels bid ask)) = some (twoLevelBook bid ask) :=
  ArbitrageEngine.lookup_updateOrderBook 0 (twoLevels bid ask) (ArbitrageEngine.new true)

/-- The tick of `100.01` and `100.03`. -/
def shortTick : BboTick :=
  ⟨bytes "Binance", bytes "BTC", 10001 / 100, 10003 / 100, 10002 / 100, 20000 / 10001, 0⟩

/-- Five digits are enough for `100.01` and `100.03`. -/
theorem tick_prices_iff_short :
    ∃ line, ilpLine (gText 6) shortTick = some line ∧
      PricesAgree shortTick line ⟨10001 / 100, 1, 0⟩ ⟨10003 / 100, 1, 0⟩ := by
  obtain ⟨line, hline⟩ : ∃ line, ilpLine (gText 6) shortTick = some line :=
    Option.isSome_iff_exists.mp (by decide +kernel)
  have ht : ((ArbitrageEngine.new true).updateOrderBook 0
      (twoLevels (10001 / 100) (10003 / 100))).2 = some shortTick := by decide +kernel
  have hdigits : ∀ n < 1000000, HasDigits 6 ((n : ℕ) / 100) := by
    intro n hn
    exact ⟨n, -2, hn, by rw [zpow_neg, div_eq_mul_inv]; norm_num⟩
  refine ⟨line, hline, (tick_prices_iff ht (lookup_twoLevels _ _) (by decide +kernel)
    (by decide +kernel) ⟨?_, ?_⟩ hline).mpr ⟨?_, ?_⟩⟩
  · exact ⟨by norm_num, by norm_num, 10001, by norm_num⟩
  · exact ⟨by norm_num, by norm_num, 10003, by norm_num⟩
  · exact hdigits 10001 (by norm_num)
  · exact hdigits 10003 (by norm_num)

/-- The tick of `65000.01` and `65001`. -/
def longTick : BboTick :=
  ⟨bytes "Binance", bytes "BTC", 6500001 / 100, 65001, 13000101 / 200, 330000 / 2166667, 0⟩

/-- The line of `65000.01` says `65000`. -/
theorem tick_rounds_price :
    ¬ ∀ (nowNs : ℕ) (snap : OrderBookSnapshot) (e : ArbitrageEngine) (t : BboTick) (b : OrderBook)
      (bid ask : PriceLevel) (line : Bytes), (e.updateOrderBook nowNs snap).2 = some t →
      (e.updateOrderBook nowNs snap).1.wsBooks.lookup (bookKey snap) = some b →
      b.bids.front? = some bid → b.asks.front? = some ask →
      IsCents bid.price ∧ IsCents ask.price → ilpLine (gText 6) t = some line →
      PricesAgree t line bid ask := by
  intro hclaim
  obtain ⟨line, hline⟩ : ∃ line, ilpLine (gText 6) longTick = some line :=
    Option.isSome_iff_exists.mp (by decide +kernel)
  have ht : ((ArbitrageEngine.new true).updateOrderBook 0
      (twoLevels (6500001 / 100) 65001)).2 = some longTick := by decide +kernel
  have hagree := (hclaim _ _ _ _ _ ⟨6500001 / 100, 1, 0⟩ ⟨65001, 1, 0⟩ line ht
    (lookup_twoLevels _ _) (by decide +kernel) (by decide +kernel)
    ⟨⟨by norm_num, by norm_num, 6500001, by norm_num⟩,
      ⟨by norm_num, by norm_num, 6500100, by norm_num⟩⟩ hline).1
  rw [eq_ilpText_of_ilpLine hline, bidText_ilpText] at hagree
  have hvalue : numberValue (gText 6 longTick.bidPx) = 65000 := by decide +kernel
  rw [hvalue] at hagree
  exact absurd hagree (by norm_num)

end TickPlant.TickLogger
