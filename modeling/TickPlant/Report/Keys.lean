/-
# The keys of a report

`generate_phase` writes the objects of a report entry by entry, and nothing removes a key that
occurs twice: the sources and the symbols of the configuration are the keys of one object each,
and the `live` object of a symbol collects the exchanges of every source, whose maps may
overlap.  The keys are distinct exactly if these three lists have no repetitions, and then
every price that was fetched can be read back from the report.
-/
import TickPlant.Report.Document

namespace TickPlant

open Lib

/-- The exchanges for which a source has a price of the symbol. -/
def SourceData.exchanges (sd : SourceData) (sym : Bytes) : List Bytes :=
  match sd.live.lookup sym with
  | none => []
  | some m => m.keys

end TickPlant
