/-
The documents of instruments, bars and requests.
-/
import BarArchive.Json.Form
import BarArchive.Json.Reader
import BarArchive.Json.Writer
import BarArchive.Market.Frequency
import BarArchive.Market.Instrument

namespace BarArchive.Document

open Form

/-- A frequency. -/
def frequency : Form := oneOf (Frequency.all.map Frequency.name)

/-- An adjustment mode. -/
def adjustmentMode : Form := oneOf (AdjustmentMode.all.map AdjustmentMode.name)

/-- An assigned id. -/
def assignedId : Form := uint64

/-- A trading session. -/
def tradingSession : Form := record [⟨"start", clock, .refused⟩, ⟨"end", clock, .refused⟩]

/-- A continuous future. -/
def continuousFuture : Form :=
  record [⟨"root_symbol", text, .refused⟩, ⟨"adjustment", adjustmentMode, .refused⟩]

/-- An instrument. -/
def instrument : Form :=
  record [
    ⟨"id", int32, .null⟩,
    ⟨"symbol", text, .refused⟩,
    ⟨"datasource", text, .refused⟩,
    ⟨"expiration", stamp, .omitted⟩,
    ⟨"continuous_future", continuousFuture, .omitted⟩,
    ⟨"regular_sessions", list tradingSession, .usual (.array [])⟩]

/-- A key of a series. -/
def seriesKey : Form :=
  record [⟨"instrument_id", int32, .refused⟩, ⟨"frequency", frequency, .refused⟩]

/-- What is stored under a key. -/
def coverage : Form :=
  record [
    ⟨"instrument_id", int32, .refused⟩,
    ⟨"frequency", frequency, .refused⟩,
    ⟨"earliest", stamp, .refused⟩,
    ⟨"latest", stamp, .refused⟩]

/-- A bar. -/
def bar : Form :=
  record [
    ⟨"instrument_id", int32, .refused⟩,
    ⟨"frequency", frequency, .refused⟩,
    ⟨"timestamp", stamp, .refused⟩,
    ⟨"bar_open", stamp, .omitted⟩,
    ⟨"open", decimal, .refused⟩,
    ⟨"high", decimal, .refused⟩,
    ⟨"low", decimal, .refused⟩,
    ⟨"close", decimal, .refused⟩,
    ⟨"volume", int64, .omitted⟩,
    ⟨"open_interest", int32, .omitted⟩,
    ⟨"dividend", decimal, .omitted⟩,
    ⟨"split", decimal, .omitted⟩,
    ⟨"adj_open", decimal, .omitted⟩,
    ⟨"adj_high", decimal, .omitted⟩,
    ⟨"adj_low", decimal, .omitted⟩,
    ⟨"adj_close", decimal, .omitted⟩]

/-- A flag that is usually off. -/
def flag (name : String) : Member := ⟨name, Form.bool, .usual (.bool false)⟩

/-- A request. -/
def request : Form :=
  record [
    ⟨"instrument", instrument, .refused⟩,
    ⟨"frequency", frequency, .refused⟩,
    ⟨"start", stamp, .refused⟩,
    ⟨"end", stamp, .refused⟩,
    flag "force_fresh_data",
    flag "local_storage_only",
    flag "save_to_cache",
    flag "rth_only",
    ⟨"request_id", uint32, .refused⟩,
    ⟨"assigned_id", assignedId, .omitted⟩,
    ⟨"parent_id", assignedId, .omitted⟩]

/-- Bars to be stored. -/
def addition : Form :=
  record [
    ⟨"instrument", instrument, .refused⟩,
    ⟨"frequency", frequency, .refused⟩,
    ⟨"bars", list bar, .refused⟩,
    ⟨"overwrite", Form.bool, .refused⟩]

/-- A text as it would be written, if it writes a document of a form. -/
def canonical? (form : Form) (s : String) : Option String :=
  ((JsonValue.parse? s).bind form).map JsonValue.write

end BarArchive.Document
