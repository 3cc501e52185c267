/-
# Names of one instrument

The exchanges write the pair of a base currency and the dollar in four ways: `BTCUSDT`,
`BTCUSD`, `BTC-USD` and `BTC/USD`.  The clients of Coinbase and Kraken derive their names from
Binance's, by a table of known symbols and a general rule; the engine compares books of
different exchanges by `normalize_symbol`, the base currency in upper case; the live prices are
kept under `to_fix_key`, the name of the FIX feed.

For every base without a separator these functions fit together (`names_of_base`).  The tables
are redundant: every row is an instance of the general rule (`table_rows`).
-/
import TickPlant.Feed.LiveMid
import TickPlant.Lib.Search

namespace TickPlant

open Lib

/-! ## The code -/

/-- `binance_to_coinbase_symbol` and `binance_to_kraken_symbol`: the first row for the symbol,
or else the general rule, which puts `quote` in the place of a final `USDT`. -/
def fromBinance (rows : List (Bytes × Bytes)) (quote symbol : Bytes) : Bytes :=
  match rows.find? fun row => row.1 = symbol with
  | some row => row.2
  | none =>
    if symbol.length > 4 ∧ symbol.drop (symbol.length - 4) = bytes "USDT" then
      symbol.take (symbol.length - 4) ++ quote
    else symbol

/-- The symbols that `binance_to_coinbase_symbol` knows. -/
def coinbaseRows : List (Bytes × Bytes) :=
  [(bytes "BTCUSDT", bytes "BTC-USD"), (bytes "ETHUSDT", bytes "ETH-USD"),
    (bytes "BNBUSDT", bytes "BNB-USD"), (bytes "ADAUSDT", bytes "ADA-USD"),
    (bytes "DOTUSDT", bytes "DOT-USD"), (bytes "SOLUSDT", bytes "SOL-USD"),
    (bytes "MATICUSDT", bytes "MATIC-USD"), (bytes "AVAXUSDT", bytes "AVAX-USD"),
    (bytes "LTCUSDT", bytes "LTC-USD"), (bytes "LINKUSDT", bytes "LINK-USD"),
    (bytes "XLMUSDT", bytes "XLM-USD"), (bytes "XRPUSDT", bytes "XRP-USD"),
    (bytes "UNIUSDT", bytes "UNI-USD"), (bytes "AAVEUSDT", bytes "AAVE-USD"),
    (bytes "ATOMUSDT", bytes "ATOM-USD"), (bytes "ALGOUSDT", bytes "ALGO-USD")]

/-- The symbols that `binance_to_kraken_symbol` knows. -/
def krakenRows : List (Bytes × Bytes) :=
  [(bytes "BTCUSDT", bytes "BTC/USD"), (bytes "ETHUSDT", bytes "ETH/USD"),
    (bytes "ADAUSDT", bytes "ADA/USD"), (bytes "DOTUSDT", bytes "DOT/USD"),
    (bytes "SOLUSDT", bytes "SOL/USD"), (bytes "MATICUSDT", bytes "MATIC/USD"),
    (bytes "AVAXUSDT", bytes "AVAX/USD"), (bytes "LTCUSDT", bytes "LTC/USD"),
    (bytes "LINKUSDT", bytes "LINK/USD"), (bytes "XLMUSDT", bytes "XLM/USD"),
    (bytes "XRPUSDT", bytes "XRP/USD"), (bytes "UNIUSDT", bytes "UNI/USD"),
    (bytes "AAVEUSDT", bytes "AAVE/USD"), (bytes "ATOMUSDT", bytes "ATOM/USD"),
    (bytes "ALGOUSDT", bytes "ALGO/USD")]

/-- `CoinbaseWebSocketClient::binance_to_coinbase_symbol`. -/
def binanceToCoinbaseSymbol : Bytes → Bytes := fromBinance coinbaseRows (bytes "-USD")

/-- `KrakenWebSocketClient::binance_to_kraken_symbol`. -/
def binanceToKrakenSymbol : Bytes → Bytes := fromBinance krakenRows (bytes "/USD")

/-! ## Conversion -/

lemma length_append_sub (b : Bytes) {q : Bytes} {k : ℕ} (h : q.length = k) :
    (b ++ q).length - k = b.length := by
  rw [List.length_append, h, Nat.add_sub_cancel]

/-- A row is an instance of the general rule. -/
def RowFits (quote : Bytes) (row : Bytes × Bytes) : Prop :=
  row.2 = row.1.take (row.1.length - 4) ++ quote

instance (quote : Bytes) (row : Bytes × Bytes) : Decidable (RowFits quote row) :=
  inferInstanceAs (Decidable (_ = _))

lemma table_rows :
    (∀ row ∈ coinbaseRows, RowFits (bytes "-USD") row) ∧
      ∀ row ∈ krakenRows, RowFits (bytes "/USD") row := by
  decide +kernel

/-- A symbol of Binance with a base is converted by exchanging the quote currency. -/
lemma fromBinance_append {rows : List (Bytes × Bytes)} {quote : Bytes}
    (hrows : ∀ row ∈ rows, RowFits quote row) {b : Bytes} (hb : b ≠ []) :
    fromBinance rows quote (b ++ bytes "USDT") = b ++ quote := by
  have hlen : (b ++ bytes "USDT").length - 4 = b.length := length_append_sub b rfl
  have hpos := List.length_pos_iff.mpr hb
  rw [fromBinance]
  cases hfind : rows.find? fun row => row.1 = b ++ bytes "USDT" with
  | some row =>
    have hrow : row.1 = b ++ bytes "USDT" := by simpa using List.find?_some hfind
    have hfits := hrows row (List.mem_of_find?_eq_some hfind)
    rw [RowFits, hrow, hlen, List.take_left] at hfits
    exact hfits
  | none =>
    dsimp only
    rw [hlen, List.drop_left, List.take_left, if_pos ⟨by omega, rfl⟩]

/-! ## Normalization -/

lemma upper_append (s t : Bytes) : upper (s ++ t) = upper s ++ upper t := List.map_append

/-- Only the letters change. -/
lemma not_mem_upper {c : UInt8} (hc : ∀ x, toUpper x = c → x = c) {s : Bytes} (h : c ∉ s) :
    c ∉ upper s := by
  intro hmem
  obtain ⟨x, hx, heq⟩ := List.mem_map.mp hmem
  exact h (hc x heq ▸ hx)

lemma toUpper_eq_dash : ∀ x, toUpper x = 45 → x = 45 := by decide +kernel

lemma toUpper_eq_slash : ∀ x, toUpper x = 47 → x = 47 := by decide +kernel

/-- The letter case does not matter. -/
lemma normalizeSymbol_congr {s t : Bytes} (h : upper s = upper t) :
    normalizeSymbol s = normalizeSymbol t := by
  rw [normalizeSymbol, normalizeSymbol, h]

/-- A separator ends the base currency. -/
lemma normalizeSymbol_separated {b : Bytes} (hdash : 45 ∉ b) (hslash : 47 ∉ b) :
    normalizeSymbol (b ++ bytes "-USD") = upper b ∧
      normalizeSymbol (b ++ bytes "/USD") = upper b := by
  have hdash' := not_mem_upper toUpper_eq_dash hdash
  have hslash' := not_mem_upper toUpper_eq_slash hslash
  have hupper : ∀ c : UInt8, upper (b ++ c :: bytes "USD") =
      upper b ++ toUpper c :: bytes "USD" := fun c => upper_append b (c :: bytes "USD")
  constructor
  · rw [normalizeSymbol, show bytes "-USD" = 45 :: bytes "USD" from rfl, hupper]
    rw [show toUpper 45 = 45 from rfl, findIdx?_append_cons hdash']
    exact List.take_left
  · have hnone : (upper b ++ 47 :: bytes "USD").findIdx? (· = 45) = none := by
      rw [findIdx?_eq_none_iff_not_mem, List.mem_append, not_or]
      exact ⟨hdash', by decide⟩
    rw [normalizeSymbol, show bytes "/USD" = 47 :: bytes "USD" from rfl, hupper]
    rw [show toUpper 47 = 47 from rfl, hnone, findIdx?_append_cons hslash']
    exact List.take_left

/-- What ends in `USD` does not end in `USDT`. -/
lemma drop_usd_ne (s : Bytes) (k : ℕ) : (s ++ bytes "USD").drop k ≠ bytes "USDT" := by
  intro heq
  have hlast := congrArg List.getLast? (List.take_append_drop k (s ++ bytes "USD"))
  rw [heq, List.getLast?_append, List.getLast?_append,
    show (bytes "USDT").getLast? = some 84 by decide,
    show (bytes "USD").getLast? = some 68 by decide, Option.some_or, Option.some_or] at hlast
  exact absurd (Option.some.inj hlast) (by decide)

/-- A quote currency without a separator is cut off, the longer one first. -/
lemma normalizeSymbol_joined {b : Bytes} (hb : b ≠ []) (hdash : 45 ∉ b) (hslash : 47 ∉ b) :
    normalizeSymbol (b ++ bytes "USDT") = upper b ∧
      normalizeSymbol (b ++ bytes "USD") = upper b := by
  have hpos : 0 < (upper b).length := by
    rw [upper, List.length_map]
    exact List.length_pos_iff.mpr hb
  have hnone : ∀ c q, c ∉ upper b → c ∉ q →
      (upper b ++ q).findIdx? (· = c) = none := by
    intro c q hc hq
    rw [findIdx?_eq_none_iff_not_mem, List.mem_append, not_or]
    exact ⟨hc, hq⟩
  have hdash' := not_mem_upper toUpper_eq_dash hdash
  have hslash' := not_mem_upper toUpper_eq_slash hslash
  constructor
  · have hlen : (upper b ++ bytes "USDT").length - 4 = (upper b).length := length_append_sub _ rfl
    rw [normalizeSymbol, upper_append, show upper (bytes "USDT") = bytes "USDT" by decide]
    rw [hnone _ _ hdash' (by decide), hnone _ _ hslash' (by decide)]
    dsimp only
    have hlong : 4 < (upper b ++ bytes "USDT").length := by
      rw [List.length_append]
      exact Nat.lt_add_of_pos_left hpos
    rw [hlen, List.drop_left, List.take_left, if_pos ⟨hlong, rfl⟩]
  · have hlen : (upper b ++ bytes "USD").length - 3 = (upper b).length := length_append_sub _ rfl
    have hlong : 3 < (upper b ++ bytes "USD").length := by
      rw [List.length_append]
      exact Nat.lt_add_of_pos_left hpos
    rw [normalizeSymbol, upper_append, show upper (bytes "USD") = bytes "USD" by decide]
    rw [hnone _ _ hdash' (by decide), hnone _ _ hslash' (by decide)]
    dsimp only
    rw [if_neg fun h => drop_usd_ne _ _ h.2, hlen, List.drop_left, List.take_left,
      if_pos ⟨hlong, rfl⟩]

/-- All four names of a base have its upper case as their normal form, in any letter case. -/
lemma normalizeSymbol_name {b : Bytes} (hb : b ≠ []) (hdash : 45 ∉ b) (hslash : 47 ∉ b)
    {q s : Bytes} (hq : q ∈ [bytes "USDT", bytes "USD", bytes "-USD", bytes "/USD"])
    (hs : upper s = upper (b ++ q)) : normalizeSymbol s = upper b := by
  obtain ⟨husdt, husd⟩ := normalizeSymbol_joined hb hdash hslash
  obtain ⟨hdashed, hslashed⟩ := normalizeSymbol_separated hdash hslash
  rw [normalizeSymbol_congr hs]
  simp only [List.mem_cons, List.not_mem_nil, or_false] at hq
  rcases hq with rfl | rfl | rfl | rfl
  · exact husdt
  · exact husd
  · exact hdashed
  · exact hslashed

/-! ## The name of the FIX feed -/

/-- The separator goes, and so does the `T` of `USDT`. -/
lemma toFixKey_append {b q : Bytes} (hb : b ≠ []) (hdash : 45 ∉ b) (hslash : 47 ∉ b)
    (hq : q ∈ [bytes "USDT", bytes "-USD", bytes "/USD"]) :
    toFixKey (b ++ q) = b ++ bytes "USD" := by
  have hkeep : ∀ c : UInt8, c ∉ b → (b.filter fun x => x ≠ c) = b := by
    intro c hc
    rw [List.filter_eq_self]
    intro x hx
    simpa using fun heq : x = c => hc (heq ▸ hx)
  have hkey : ∀ {r : Bytes}, ((q.filter fun c => c ≠ 47).filter fun c => c ≠ 45) = r →
      toFixKey (b ++ q) =
        if (b ++ r).length > 4 ∧ (b ++ r).drop ((b ++ r).length - 4) = bytes "USDT" then
          (b ++ r).dropLast else b ++ r := by
    rintro r rfl
    rw [toFixKey, List.filter_append, List.filter_append, hkeep 47 hslash, hkeep 45 hdash]
  simp only [List.mem_cons, List.not_mem_nil, or_false] at hq
  rcases hq with rfl | rfl | rfl
  · have hlong : 4 < (b ++ bytes "USDT").length := by
      rw [List.length_append]
      exact Nat.lt_add_of_pos_left (List.length_pos_iff.mpr hb)
    have hlen : (b ++ bytes "USDT").length - 4 = b.length := length_append_sub b rfl
    rw [hkey (r := bytes "USDT") (by decide), hlen, List.drop_left, if_pos ⟨hlong, rfl⟩,
      List.dropLast_append_of_ne_nil (by decide)]
    rfl
  · rw [hkey (r := bytes "USD") (by decide), if_neg fun h => drop_usd_ne _ _ h.2]
  · rw [hkey (r := bytes "USD") (by decide), if_neg fun h => drop_usd_ne _ _ h.2]

/-- **The names of one instrument.**  For every base without a separator: its four names, in any
letter case, have the base in upper case as their normal form; the names of Coinbase and Kraken
are derived from that of Binance, which leaves the normal form as it is; and the three names of
the exchanges lead to that of the FIX feed, with the same normal form. -/
theorem names_of_base (b : Bytes) (hb : b ≠ []) (hdash : 45 ∉ b) (hslash : 47 ∉ b) :
    (∀ q ∈ [bytes "USDT", bytes "USD", bytes "-USD", bytes "/USD"], ∀ s,
        upper s = upper (b ++ q) → normalizeSymbol s = upper b) ∧
      binanceToCoinbaseSymbol (b ++ bytes "USDT") = b ++ bytes "-USD" ∧
      binanceToKrakenSymbol (b ++ bytes "USDT") = b ++ bytes "/USD" ∧
      normalizeSymbol (binanceToCoinbaseSymbol (b ++ bytes "USDT")) =
        normalizeSymbol (b ++ bytes "USDT") ∧
      normalizeSymbol (binanceToKrakenSymbol (b ++ bytes "USDT")) =
        normalizeSymbol (b ++ bytes "USDT") ∧
      ∀ q ∈ [bytes "USDT", bytes "-USD", bytes "/USD"],
        toFixKey (b ++ q) = b ++ bytes "USD" ∧ normalizeSymbol (toFixKey (b ++ q)) = upper b := by
  obtain ⟨husdt, husd⟩ := normalizeSymbol_joined hb hdash hslash
  obtain ⟨hdashed, hslashed⟩ := normalizeSymbol_separated hdash hslash
  have hcoinbase : binanceToCoinbaseSymbol (b ++ bytes "USDT") = b ++ bytes "-USD" :=
    fromBinance_append table_rows.1 hb
  have hkraken : binanceToKrakenSymbol (b ++ bytes "USDT") = b ++ bytes "/USD" :=
    fromBinance_append table_rows.2 hb
  refine ⟨?_, hcoinbase, hkraken, ?_, ?_, ?_⟩
  · intro q hq s hs
    exact normalizeSymbol_name hb hdash hslash hq hs
  · rw [hcoinbase, hdashed, husdt]
  · rw [hkraken, hslashed, husdt]
  · intro q hq
    have hkey := toFixKey_append hb hdash hslash hq
    exact ⟨hkey, by rw [hkey, husd]⟩

/-- The base `btc`. -/
theorem names_of_base_btc :
    normalizeSymbol (bytes "bTc/uSd") = bytes "BTC" ∧
      binanceToKrakenSymbol (bytes "btcUSDT") = bytes "btc/USD" := by
  obtain ⟨hnames, -, hkraken, -⟩ :=
    names_of_base (bytes "btc") (by decide) (by decide) (by decide)
  exact ⟨hnames (bytes "/USD") (by decide) (bytes "bTc/uSd") (by decide), hkraken⟩

end TickPlant
