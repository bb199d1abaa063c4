import ActiveMQCpp.TransportRuns
import ActiveMQCpp.CoreAckLedger
import ActiveMQCpp.StateInDoubt
import ActiveMQCpp.StateStale
import ActiveMQCpp.StompInjection
import ActiveMQCpp.CoreProducerWindow
import ActiveMQCpp.CoreSessionClose
import ActiveMQCpp.CoreInterruption
import ActiveMQCpp.CoreRouting
import ActiveMQCpp.CommandsForward
import ActiveMQCpp.CoreDispatchChannel
import ActiveMQCpp.CoreConnectionAudit
import ActiveMQCpp.CoreAckCounters
import ActiveMQCpp.CoreRedeliveryLimit
import ActiveMQCpp.TransportReconnect
import ActiveMQCpp.DecafCopyOnWriteArrayList
import ActiveMQCpp.DecafLinkedListCursors
import ActiveMQCpp.DecafBitSetPool
import ActiveMQCpp.WireBooleanRoundTrip
import ActiveMQCpp.WireBrokerErrorRoundTrip
import ActiveMQCpp.DecafTimerSafety
import ActiveMQCpp.CommandsStreamRefusal
import ActiveMQCpp.DecafReadFully
import ActiveMQCpp.WirePrimitiveReencode
import ActiveMQCpp.CommandsBodyAccess
import ActiveMQCpp.CommandsStreamWidening
import ActiveMQCpp.CommandsWriteBytes
import ActiveMQCpp.CommandsDestinationNaming
import ActiveMQCpp.CommandsPropertyAgreement
import ActiveMQCpp.CoreCompeting
import ActiveMQCpp.CoreRedeliveryWait
import ActiveMQCpp.CoreTempDestination
import ActiveMQCpp.CoreTransactionOutcome
import ActiveMQCpp.CoreUnacknowledged
import ActiveMQCpp.CoreXAProtocol
import ActiveMQCpp.ThreadsCompositeTaskRunner
import ActiveMQCpp.TransportBrokerList
import ActiveMQCpp.UtilURIOptions
import ActiveMQCpp.UtilApplyParameters
import ActiveMQCpp.DecafUUID
import ActiveMQCpp.DecafPriorityQueueRuns
import ActiveMQCpp.DecafTimerHeapOrder
import ActiveMQCpp.DecafTokenizerRuns
import ActiveMQCpp.DecafURIOrderLaws
import ActiveMQCpp.UtilIdOrder
import ActiveMQCpp.DecafBitUtilities
import ActiveMQCpp.DecafPropertiesEscapes
import ActiveMQCpp.DecafNumberText
import ActiveMQCpp.TransportCorrelator
import ActiveMQCpp.UtilIdUnique
