import PolkadotApi.StreamReader
import PolkadotApi.HexText
import PolkadotApi.StepRuns
import PolkadotApi.BoundedBuffer
import PolkadotApi.MachineModel
import PolkadotApi.ScaleCodec
import PolkadotApi.ScaleRoundTrip
import PolkadotApi.AddressCodec
import PolkadotApi.AddressRoundTrip
import PolkadotApi.Converters
import PolkadotApi.MetadataFactory
import PolkadotApi.MetadataLookup
import PolkadotApi.MetadataV7RoundTrip
import PolkadotApi.ExtrinsicSubmission
import PolkadotApi.ExtrinsicAgreement
import PolkadotApi.PendingExtrinsics
import PolkadotApi.JsonValues
import PolkadotApi.ConcurrentMapQueue
import PolkadotApi.QueueLaws
import PolkadotApi.JsonRpcThreads
import PolkadotApi.RequestReplies
import PolkadotApi.SubscriptionDelivery
import PolkadotApi.StorageKeys
import PolkadotApi.Notifications
import PolkadotApi.StatefulActions
import PolkadotApi.Subscriptions
import PolkadotApi.SubscriptionFrames
import PolkadotApi.CallSpecifications
import PolkadotApi.Connection
import PolkadotApi.ObjectRuns
import PolkadotApi.NonceSubscriptions
import PolkadotApi.Reconnection
import PolkadotApi.EpochMode
import PolkadotApi.BlockNumberSharing
import PolkadotApi.SubscriptionLedger
import PolkadotApi.KeyedSubscriptions
import PolkadotApi.SlotSubscriptions
import PolkadotApi.CallbackDelivery
import PolkadotApi.TransferStatus
import PolkadotApi.FailedSubscriptions
import PolkadotApi.QueueGuarantees
import PolkadotApi.KeyErasure
import PolkadotApi.SemaphoreLookups
import PolkadotApi.ReleasedConsumers
import PolkadotApi.QueryEntries
import PolkadotApi.ObserverLifetimes
import PolkadotApi.SocketProgress
import PolkadotApi.HostNames
import PolkadotApi.ExtrinsicLengths
import PolkadotApi.StorageEntries
import PolkadotApi.MethodSearch
import PolkadotApi.StorageTypesV0
import PolkadotApi.MissingNames
import PolkadotApi.StreamPrograms
import PolkadotApi.ParserPrograms
import PolkadotApi.ParserLimits
import PolkadotApi.SubscriptionRetries
import PolkadotApi.BlockNumbers
import PolkadotApi.EraProgress
import PolkadotApi.ChangedKeys
import PolkadotApi.VersionHistory
import PolkadotApi.FunctionHashers
import PolkadotApi.MappedKeys
import PolkadotApi.KeyHashers
import PolkadotApi.MetadataConstants
import PolkadotApi.Base58Buffers
import PolkadotApi.BlockQueries
import PolkadotApi.CompactReading
import PolkadotApi.IndexedFill
import PolkadotApi.NetworkStates
import PolkadotApi.SendMutex
import PolkadotApi.WaitWakeups
import PolkadotApi.Base58DecodeBounds
import PolkadotApi.JsonGrammar
import PolkadotApi.JsonRoundTrip
import PolkadotApi.QueueProgress
import PolkadotApi.SemaphoreClass
import PolkadotApi.AccountKeys
import PolkadotApi.MetadataRoundTrips
import PolkadotApi.NumeralTexts
import PolkadotApi.WideDivision
import PolkadotApi.WideTexts
import PolkadotApi.MissingCalls
import PolkadotApi.VersionDetection
import PolkadotApi.JsonMeanings
import PolkadotApi.SemaphoreClassCounts
import PolkadotApi.SemaphoreClassProgress
import PolkadotApi.SemaphoreClassRefinement
