import BtcRpcProxy.Runs
import BtcRpcProxy.BlockCacheCore
import BtcRpcProxy.BlockCache
import BtcRpcProxy.BlockCacheOrder
import BtcRpcProxy.CookieCacheCore
import BtcRpcProxy.CookieCache
import BtcRpcProxy.JsonCore
import BtcRpcProxy.RequestCore
import BtcRpcProxy.RequestDecoders
import BtcRpcProxy.JsonRoundTrip
import BtcRpcProxy.RequestRoundTrip
import BtcRpcProxy.PolledFuture
import BtcRpcProxy.RelatedFutures
import BtcRpcProxy.ResponseCore
import BtcRpcProxy.KeyedMerge
import BtcRpcProxy.SendCore
import BtcRpcProxy.BatchRuns
import BtcRpcProxy.BatchReplies
import BtcRpcProxy.BatchPairing
import BtcRpcProxy.MerkleTree
import BtcRpcProxy.MerkleRepeats
import BtcRpcProxy.BlockCore
import BtcRpcProxy.BlockIdentity
import BtcRpcProxy.WitnessChecks
import BtcRpcProxy.WitnessTampering
import BtcRpcProxy.SelfDelimiting
import BtcRpcProxy.BlockEncoding
import BtcRpcProxy.BlockRepeats
import BtcRpcProxy.RpcMethodsCore
import BtcRpcProxy.Hexadecimal
import BtcRpcProxy.InterceptCore
import BtcRpcProxy.InterceptOutcomes
import BtcRpcProxy.BatchRefusal
import BtcRpcProxy.BatchFailure
import BtcRpcProxy.ArgumentGrammar
import BtcRpcProxy.BlockAnswer
import BtcRpcProxy.UsersCore
import BtcRpcProxy.PasswordComparison
import BtcRpcProxy.Base64
import BtcRpcProxy.TextBytes
import BtcRpcProxy.ProxyCore
import BtcRpcProxy.ProxyRequests
import BtcRpcProxy.PercentEncoding
import BtcRpcProxy.WalletPath
import BtcRpcProxy.BatchOrder
import BtcRpcProxy.Interleaving
import BtcRpcProxy.AuthSourceCore
import BtcRpcProxy.CredentialsHeader
import BtcRpcProxy.TextLines
import BtcRpcProxy.CreateStateCore
import BtcRpcProxy.RpcauthLines
import BtcRpcProxy.PassthroughRpcauth
import BtcRpcProxy.CookieFreshness
import BtcRpcProxy.FetchBlocksCore
import BtcRpcProxy.CredentialFailuresCore
import BtcRpcProxy.CredentialSecrets
import BtcRpcProxy.CredentialFailures
import BtcRpcProxy.FetchBlocks
import BtcRpcProxy.PeerRace
import BtcRpcProxy.UnusedConnections
import BtcRpcProxy.RecycledConnections
import BtcRpcProxy.InterceptPanics
import BtcRpcProxy.PeerDiallingCore
import BtcRpcProxy.PeerDialling
import BtcRpcProxy.PeerListCore
import BtcRpcProxy.PeerList
import BtcRpcProxy.FetchedBlocks
import BtcRpcProxy.FetchProvenance
import BtcRpcProxy.FetchProgress
import BtcRpcProxy.NetworkParams
import BtcRpcProxy.RecentUses
import BtcRpcProxy.BlockCacheUses
import BtcRpcProxy.RpcCallCore
import BtcRpcProxy.ReplyRelay
import BtcRpcProxy.TransactionLookups
import BtcRpcProxy.PostedOnce
import BtcRpcProxy.Transparency
import BtcRpcProxy.ProxyCalls
import BtcRpcProxy.Logins
import BtcRpcProxy.ScheduleIndependence
import BtcRpcProxy.StatuslessErrors
import BtcRpcProxy.ProtocolForms
import BtcRpcProxy.FetchFates
import BtcRpcProxy.RunFates
