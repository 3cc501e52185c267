/-
# The books of a run

A book is created by the first message of its feed and gets its names from it: the WebSocket
books from a message of an exchange for a symbol, the FIX books from a market data message for
a symbol.  Later messages with the same key change the levels and the clock of the book, but
not its names.  So in every state that the engine reaches, each book belongs to a feed that a
message has been received from.

Two feeds of the WebSocket side may share a key, as the key does not tell where the exchange
ends and the symbol begins; the book then has the names of the one that came first.
-/
import TickPlant.Engine.Arbitrage

namespace TickPlant

open ArbitrageEngine (BookId)

/-! ## Feeds and calls -/

/-- Where a message comes from: an exchange and a symbol of it, or a symbol of the FIX feed. -/
inductive Feed
  | ws (exchange symbol : Bytes)
  | fix (symbol : Bytes)
deriving DecidableEq

namespace Feed

/-- The exchange of the book. -/
def exchange : Feed → Bytes
  | ws exchange _ => exchange
  | fix _ => bytes "FIX"

/-- The symbol of the book, as the exchange writes it. -/
def symbol : Feed → Bytes
  | ws _ symbol => symbol
  | fix symbol => symbol

/-- The base currency of the book. -/
def base (f : Feed) : Bytes := normalizeSymbol f.symbol

/-- The name that the engine stores the book under. -/
def id : Feed → BookId
  | ws exchange symbol => .ws (exchange ++ bytes ":" ++ symbol)
  | fix symbol => .fix symbol

/-- The book that the first message creates. -/
def newBook (f : Feed) : OrderBook := .new f.symbol f.exchange

end Feed

/-- A call of one of the two entry points of the engine. -/
inductive EngineCall
  | ws (snap : OrderBookSnapshot)
  | fix (msg : FIXMessage)

namespace EngineCall

/-- The feed that the message comes from; what is not market data is ignored. -/
def feed? : EngineCall → Option Feed
  | ws snap => some (.ws snap.exchange snap.symbol)
  | fix msg => if msg.isMarketData then some (.fix msg.symbol) else none

/-- What the call does to the book of its feed. -/
def applyTo (nowNs : ℕ) (b : OrderBook) : EngineCall → OrderBook
  | ws snap => b.applyBatch (nowNs / 1000000) snap
  | fix msg =>
    if msg.msgType = .marketDataSnapshot then b.applySnapshot (nowNs / 1000000) msg
    else b.applyUpdate (nowNs / 1000000) msg

end EngineCall

namespace ArbitrageEngine

/-- One call. -/
def apply (nowNs : ℕ) (e : ArbitrageEngine) : EngineCall → ArbitrageEngine
  | .ws snap => (e.updateOrderBook nowNs snap).1
  | .fix msg => e.updateFixData nowNs msg

/-- A sequence of calls, each with its clock reading. -/
def runCalls (e : ArbitrageEngine) (calls : List (ℕ × EngineCall)) : ArbitrageEngine :=
  calls.foldl (fun e c => e.apply c.1 c.2) e

/-- The book of a name. -/
def bookOf (e : ArbitrageEngine) : BookId → Option OrderBook
  | .ws key => e.wsBooks.lookup key
  | .fix symbol => e.fixBooks.lookup symbol

/-- What a call does to the books of the engine: it changes or creates the one of its feed. -/
lemma bookOf_apply (nowNs : ℕ) (e : ArbitrageEngine) {c : EngineCall} {f : Feed}
    (hf : c.feed? = some f) (id : BookId) :
    (e.apply nowNs c).bookOf id =
      if id = f.id then some (c.applyTo nowNs ((e.bookOf f.id).getD f.newBook))
      else e.bookOf id := by
  cases c with
  | ws snap =>
    obtain rfl := Option.some.inj hf
    cases id with
    | ws key =>
      by_cases hkey : key = bookKey snap
      · subst hkey
        rw [if_pos (show BookId.ws (bookKey snap) = Feed.id _ from rfl)]
        exact AList.lookup_insert _
      · have hid : BookId.ws key ≠ (Feed.ws snap.exchange snap.symbol).id :=
          fun h => hkey (BookId.ws.inj h)
        rw [if_neg hid]
        exact AList.lookup_insert_ne hkey
    | fix symbol =>
      rw [if_neg (by simp [Feed.id])]
      rfl
  | fix msg =>
    have hmarket : msg.isMarketData = true := by
      by_contra h
      simp [EngineCall.feed?, h] at hf
    obtain rfl : Feed.fix msg.symbol = f := by simpa [EngineCall.feed?, hmarket] using hf
    rw [apply, updateFixData, if_pos hmarket]
    cases id with
    | ws key =>
      rw [if_neg (by simp [Feed.id])]
      rfl
    | fix symbol =>
      by_cases hsymbol : symbol = msg.symbol
      · subst hsymbol
        rw [if_pos (show BookId.fix msg.symbol = Feed.id _ from rfl)]
        exact AList.lookup_insert _
      · have hid : BookId.fix symbol ≠ (Feed.fix msg.symbol).id :=
          fun h => hsymbol (BookId.fix.inj h)
        rw [if_neg hid]
        exact AList.lookup_insert_ne hsymbol

/-- A call that is ignored. -/
lemma apply_of_feed?_none (nowNs : ℕ) (e : ArbitrageEngine) {c : EngineCall}
    (hf : c.feed? = none) : e.apply nowNs c = e := by
  cases c with
  | ws snap => cases hf
  | fix msg =>
    refine if_neg fun hmarket => ?_
    simp [EngineCall.feed?, hmarket] at hf

lemma mem_bookIds {e : ArbitrageEngine} {id : BookId} :
    id ∈ e.bookIds ↔ (e.bookOf id).isSome := by
  cases id <;> simp [bookIds, bookOf, AList.lookup_isSome, ← AList.mem_keys]

/-- The books of an engine as constructed. -/
lemma bookOf_new (tickLogger : Bool) (id : BookId) : (new tickLogger).bookOf id = none := by
  cases id <;> rfl

end ArbitrageEngine

/-! ## The names of a book -/

namespace OrderBook

/-- The two books have the same names. -/
def SameNames (b b' : OrderBook) : Prop := b'.exchange = b.exchange ∧ b'.symbol = b.symbol

lemma SameNames.trans {b b' b'' : OrderBook} (h : b.SameNames b') (h' : b'.SameNames b'') :
    b.SameNames b'' := ⟨h'.1.trans h.1, h'.2.trans h.2⟩

lemma sameNames_foldl {α : Type} {f : OrderBook → α → OrderBook}
    (hf : ∀ (b : OrderBook) x, b.SameNames (f b x)) (l : List α) (b : OrderBook) :
    b.SameNames (l.foldl f b) := by
  induction l generalizing b with
  | nil => exact ⟨rfl, rfl⟩
  | cons x l ih => exact (hf b x).trans (ih (f b x))

lemma sameNames_putLevel (side : Side) (level : PriceLevel) (b : OrderBook) :
    b.SameNames (b.putLevel side level) := by
  cases side <;> exact ⟨rfl, rfl⟩

lemma sameNames_dropLevel (side : Side) (price : ℚ) (b : OrderBook) :
    b.SameNames (b.dropLevel side price) := by
  cases side <;> exact ⟨rfl, rfl⟩

/-- A batch of a WebSocket feed keeps the names. -/
lemma sameNames_applyBatch (now : ℕ) (snap : OrderBookSnapshot) (b : OrderBook) :
    b.SameNames (b.applyBatch now snap) := by
  have hset : ∀ side (b : OrderBook) l, b.SameNames (setSnapshotLevel now side b l) :=
    fun side b l => sameNames_putLevel side _ b
  have hdelta : ∀ side (b : OrderBook) l, b.SameNames (applyDeltaLevel now side b l) := by
    intro side b l
    rw [applyDeltaLevel]
    split
    · exact sameNames_dropLevel side _ b
    · exact sameNames_putLevel side _ b
  rw [applyBatch]
  split
  · exact (sameNames_foldl (hset .bid) snap.bids (b.clear now)).trans
      (sameNames_foldl (hset .ask) snap.asks _)
  · exact (sameNames_foldl (hdelta .bid) snap.bids b).trans
      (sameNames_foldl (hdelta .ask) snap.asks _)

/-- A FIX message for the book's own symbol keeps the names. -/
lemma sameNames_applySnapshot (now : ℕ) {msg : FIXMessage} {b : OrderBook}
    (hsymbol : b.symbol = msg.symbol) : b.SameNames (b.applySnapshot now msg) := by
  have hentry : ∀ (b : OrderBook) e, b.SameNames (applySnapshotEntry b e) := by
    intro b e
    rw [applySnapshotEntry]
    split
    · exact sameNames_putLevel _ _ b
    · exact ⟨rfl, rfl⟩
  rw [applySnapshot]
  split
  · dsimp only
    split
    · rename_i hempty
      simp [hsymbol] at hempty
    · exact sameNames_foldl hentry msg.entries { b with bids := Levels.empty, asks := Levels.empty }
  · exact ⟨rfl, rfl⟩

lemma sameNames_applyUpdate (now : ℕ) (msg : FIXMessage) (b : OrderBook) :
    b.SameNames (b.applyUpdate now msg) := by
  have hentry : ∀ (b : OrderBook) e, b.SameNames (applyMdEntry b e) := by
    intro b e
    rw [applyMdEntry]
    split
    · exact ⟨rfl, rfl⟩
    · split_ifs
      · exact sameNames_putLevel _ _ b
      · exact sameNames_dropLevel _ _ b
      · exact ⟨rfl, rfl⟩
  rw [applyUpdate]
  split
  · exact sameNames_foldl hentry msg.entries b
  · exact ⟨rfl, rfl⟩

end OrderBook

/-- The book is named after the feed. -/
def Feed.Names (f : Feed) (b : OrderBook) : Prop := b.exchange = f.exchange ∧ b.symbol = f.symbol

namespace ArbitrageEngine

/-- Every book is named after a feed of the set, which is one that has its key. -/
def BooksFrom (S : Set Feed) (e : ArbitrageEngine) : Prop :=
  ∀ id b, e.bookOf id = some b → ∃ f ∈ S, f.id = id ∧ f.Names b

variable {S : Set Feed}

/-- An engine without books. -/
lemma booksFrom_of_none {e : ArbitrageEngine} (h : ∀ id, e.bookOf id = none) : e.BooksFrom S := by
  intro id b hb
  rw [h] at hb
  cases hb

/-- A call for a feed of the set. -/
lemma BooksFrom.apply {e : ArbitrageEngine} (h : e.BooksFrom S) (nowNs : ℕ) {c : EngineCall}
    (hc : ∀ f ∈ c.feed?, f ∈ S) : (e.apply nowNs c).BooksFrom S := by
  cases hfeed : c.feed? with
  | none => rwa [apply_of_feed?_none nowNs e hfeed]
  | some f =>
    intro id b hb
    rw [bookOf_apply nowNs e hfeed] at hb
    split at hb
    · rename_i hid
      -- the feed whose names the book had before, or the new one
      have hold : ∃ g ∈ S, g.id = id ∧ g.Names ((e.bookOf f.id).getD f.newBook) := by
        cases hbook : e.bookOf f.id with
        | none => exact ⟨f, hc f hfeed, hid.symm, rfl, rfl⟩
        | some b => exact h id b (hid ▸ hbook)
      obtain ⟨g, hg, hgid, hnames⟩ := hold
      have hsame : ((e.bookOf f.id).getD f.newBook).SameNames b := by
        rw [← Option.some.inj hb]
        cases c with
        | ws snap => exact OrderBook.sameNames_applyBatch _ snap _
        | fix msg =>
          rw [EngineCall.applyTo]
          split
          · refine OrderBook.sameNames_applySnapshot _ ?_
            -- a feed with the key of a FIX book is that of the symbol
            have hf : Feed.fix msg.symbol = f := by
              rw [EngineCall.feed?] at hfeed
              split at hfeed
              · exact Option.some.inj hfeed
              · cases hfeed
            subst hf
            subst hid
            cases g with
            | ws exchange symbol => cases hgid
            | fix symbol =>
              rw [hnames.2]
              exact BookId.fix.inj hgid
          · exact OrderBook.sameNames_applyUpdate _ msg _
      exact ⟨g, hg, hgid, hsame.1.trans hnames.1, hsame.2.trans hnames.2⟩
    · exact h id b hb

/-- The entry of a book, with the exchange of its feed. -/
lemma entryOf_eq {e : ArbitrageEngine} {f : Feed} {b : OrderBook} (hb : e.bookOf f.id = some b)
    (hnames : f.Names b) : e.entryOf f.id = some (f.exchange, b.getSnapshot) := by
  cases f with
  | ws exchange symbol =>
    show (e.wsBooks.lookup _).map _ = _
    rw [show e.wsBooks.lookup _ = some b from hb, ← hnames.1]
    rfl
  | fix symbol =>
    show (e.fixBooks.lookup _).map _ = _
    rw [show e.fixBooks.lookup _ = some b from hb]
    rfl

/-- A run whose calls are for feeds of the set. -/
lemma BooksFrom.runCalls {e : ArbitrageEngine} (h : e.BooksFrom S) {calls : List (ℕ × EngineCall)}
    (hcalls : ∀ c ∈ calls, ∀ f ∈ c.2.feed?, f ∈ S) : (e.runCalls calls).BooksFrom S := by
  induction calls generalizing e with
  | nil => exact h
  | cons c calls ih =>
    refine ih (h.apply c.1 (hcalls c List.mem_cons_self)) ?_
    intro d hd
    exact hcalls d (List.mem_cons_of_mem c hd)

end ArbitrageEngine

end TickPlant
