import Hefest.Lib.Table
import Hefest.Lib.Transition
import Hefest.Lib.Transaction
import Hefest.Lib.Lease
import Hefest.Lib.LeaseCounts
import Hefest.Models
import Hefest.Statements
import Hefest.RefreshTokens
import Hefest.Events
import Hefest.Registrations
import Hefest.Calls
import Hefest.SeatLedger
import Hefest.SeatRuns
import Hefest.Waitlist
import Hefest.OutboxLog
import Hefest.CancelledEvents
import Hefest.SeatSerializability
import Hefest.JobClaims
import Hefest.Consumer
import Hefest.DeliveryRefinement
import Hefest.Delivery
import Hefest.LeaseTable
import Hefest.LiveWorker
import Hefest.Lib.SlidingWindow
import Hefest.RateLimit
import Hefest.LimiterKeys
import Hefest.Promotions
import Hefest.FanOut
import Hefest.EventLifecycle
import Hefest.TokenCalls
import Hefest.TokenChains
import Hefest.LogoutAll
import Hefest.OauthUsers
import Hefest.OauthRace
import Hefest.Lib.WakeSignal
import Hefest.Wakeup
import Hefest.Lib.Ranking
import Hefest.Lib.Pages
import Hefest.Lib.Views
import Hefest.Lib.Race
import Hefest.Lib.Crash
import Hefest.Lib.Watchdog
import Hefest.Lib.Slices
import Hefest.Lib.Json
import Hefest.Lib.ResourcePool
import Hefest.Listings
import Hefest.WaitlistViews
import Hefest.ToldPositions
import Hefest.PositionReads
import Hefest.ConfirmedCounts
import Hefest.Pagination
import Hefest.LocationLock
import Hefest.EventUpdates
import Hefest.RegisterRace
import Hefest.PasswordChange
import Hefest.PasswordLengths
import Hefest.AuthRouters
import Hefest.TokenDelivery
import Hefest.AccountLinks
import Hefest.Stats
import Hefest.HiddenEvents
import Hefest.Dashboard
import Hefest.Templates
import Hefest.JobContract
import Hefest.OutboxMigration
import Hefest.RetryAfter
import Hefest.Drain
import Hefest.DrainRuns
import Hefest.HeartbeatLoop
import Hefest.OauthState
import Hefest.Pusher
import Hefest.PushBatches
import Hefest.Mailer
import Hefest.MailerPool
import Hefest.MailerLogins
import Hefest.MailSubjects
import Hefest.EventTimestamps
import Hefest.WebSessions
import Hefest.Lib.Components
import Hefest.Lib.Frames
import Hefest.RateLimitMiddleware
import Hefest.Requests
import Hefest.Custody
import Hefest.Site
import Hefest.SiteRuns
import Hefest.Notices
import Hefest.Visits
import Hefest.Sessions
import Hefest.Passwords
import Hefest.Bearers
import Hefest.Lib.Since
import Hefest.Devices
import Hefest.DeviceRuns
import Hefest.Settlement
