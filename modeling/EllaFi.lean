import EllaFi.Runs
import EllaFi.Session
import EllaFi.Cache
import EllaFi.CacheMaps
import EllaFi.Omada
import EllaFi.Files
import EllaFi.Coins
import EllaFi.Finalize
import EllaFi.Ledgers
import EllaFi.Refresh
import EllaFi.PauseResume
import EllaFi.Prepaid
import EllaFi.Steps
import EllaFi.PaidTime
import EllaFi.LongerSession
import EllaFi.CoinTasks
import EllaFi.Turnstile
import EllaFi.CoinSlot
import EllaFi.FraudCount
import EllaFi.IntervalFilter
import EllaFi.Leases
import EllaFi.Holders
import EllaFi.Claimant
import EllaFi.CoinCount
import EllaFi.Json
import EllaFi.RawObject
import EllaFi.AuthBody
import EllaFi.JsonText
import EllaFi.JsonWriter
import EllaFi.NodeAlias
import EllaFi.LiveOwner
import EllaFi.Mirror
import EllaFi.ClientMerge
import EllaFi.FailedRefresh
import EllaFi.Totals
import EllaFi.MoneyStore
import EllaFi.VoucherLedger
import EllaFi.Joins
import EllaFi.ImportJoin
import EllaFi.LedgerGrowth
import EllaFi.IncomeHistory
import EllaFi.IncomeFrame
import EllaFi.Promises
import EllaFi.AckedWrites
import EllaFi.Rings
import EllaFi.Network
import EllaFi.CoinReplay
import EllaFi.SlaveWindow
import EllaFi.SlotPower
import EllaFi.FsOta
import EllaFi.Uploads
import EllaFi.TextLines
import EllaFi.VoucherDays
import EllaFi.VoucherMonths
import EllaFi.VendoMonths
import EllaFi.SellerBackfill
import EllaFi.JsonDoc
import EllaFi.ConfigFile
import EllaFi.Attribution
import EllaFi.VoucherBody
import EllaFi.MaskedConfig
import EllaFi.ProvisionForm
import EllaFi.LoginNonces
import EllaFi.LoginThrottle
import EllaFi.LoggedRemain
import EllaFi.PulledFirmware
import EllaFi.LogPolling
import EllaFi.Lockstep
import EllaFi.CosimReplay
import EllaFi.Dicts
import EllaFi.VoucherArchive
import EllaFi.PacketBytes
import EllaFi.LedgerFields
import EllaFi.Rc4
import EllaFi.Calendar
import EllaFi.LocalDays
import EllaFi.DayArithmetic
import EllaFi.LocalMonths
import EllaFi.LogPurge
import EllaFi.Nightly
import EllaFi.Startup
import EllaFi.BootOrder
import EllaFi.SellerJournal
import EllaFi.CrashPoints
import EllaFi.FailedPause
import EllaFi.SessionIds
import EllaFi.SpentTime
import EllaFi.Serial
import EllaFi.SessionOps
import EllaFi.Portal
import EllaFi.CoinStatus
import EllaFi.Noninterference
import EllaFi.PhantomKeys
import EllaFi.Credentials
import EllaFi.Bodies
import EllaFi.NodeTable
import EllaFi.Rollout
import EllaFi.BackfillScript
import EllaFi.Leaderboard
import EllaFi.ResourceHistory
import EllaFi.AdoptChannel
import EllaFi.ActivityPage
import EllaFi.SellerPesos
import EllaFi.LedgerRestore
