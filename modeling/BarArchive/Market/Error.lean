/-
What can go wrong between a request and its bars.

There are three levels: a source that fails, a store that fails, and the broker that
reports either of them or turns a request down. Each error is a cause with what is
needed to tell it; the wording is in one function per level.
-/
import BarArchive.Market.Request

namespace BarArchive

/-- Failures of a data source. -/
inductive MarketError where
  | invalidRequest (text : String)
  | unknownSource (text : String)
  | notConnected (source : SourceId)
  | disconnected (source : SourceId)
  | unsupportedFrequency (source : SourceId) (frequency : Frequency)
  | rateLimited (source : SourceId)
  | timeout (source : SourceId)
  | symbolNotFound (text : String)
  | sourceFailure (source : SourceId) (text : String)
deriving DecidableEq

namespace MarketError

/-- The text of a source failure. -/
def message : MarketError → String
  | invalidRequest text => "Invalid request: " ++ text
  | unknownSource text => "Unknown data source: " ++ text
  | notConnected source => "Data source not connected: " ++ source
  | disconnected source => "Data source disconnected: " ++ source
  | unsupportedFrequency source f => source ++ " does not support frequency " ++ f.label
  | rateLimited source => "Rate limited: " ++ source
  | timeout source => "Timeout: " ++ source
  | symbolNotFound text => "Symbol not found: " ++ text
  | sourceFailure source text => "Source error: " ++ source ++ " - " ++ text

/-- Whether the same request may succeed later. -/
def isTransient : MarketError → Bool
  | rateLimited _ | timeout _ | disconnected _ => true
  | _ => false

end MarketError

/-- Failures of the store. -/
inductive StoreError where
  | read (text : String)
  | write (text : String)
  | missingInstrumentId (symbol : String)
deriving DecidableEq

/-- The text of a store failure. -/
def StoreError.message : StoreError → String
  | read text => "Cache read failed: " ++ text
  | write text => "Cache write failed: " ++ text
  | missingInstrumentId symbol => "Instrument has no storage id: " ++ symbol

/-- What the broker answers instead of bars. -/
inductive BrokerError where
  | routing (text : String)
  | source (cause : MarketError)
  | store (cause : StoreError)
  | unknownParent (parent child : AssignedId)
  | replyDropped (requestId : UInt32)
deriving DecidableEq

namespace BrokerError

/-- The text of a broker error. -/
def message : BrokerError → String
  | routing text => "Routing error: " ++ text
  | source cause => "Source error: " ++ cause.message
  | store cause => "Cache error: " ++ cause.message
  | unknownParent parent child =>
    "Sub-request " ++ child.toText ++ " references unknown parent " ++ parent.toText
  | replyDropped requestId =>
    "Request " ++ requestId.toNat.repr ++ " was dropped before a reply was produced"

/-- Whether the request was turned down before it was accepted. -/
def isRouting : BrokerError → Bool
  | routing _ => true
  | _ => false

end BrokerError

end BarArchive
