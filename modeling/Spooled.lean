import Spooled.Job.DeadLetter
import Spooled.Workflow.Outcome
import Spooled.Job.Columns
import Spooled.Job.Life
import Spooled.Tenant.Closure
import Spooled.Worker.Counters
import Spooled.Stream.Delivery
import Spooled.Create.Idempotent
import Spooled.Job.DlqRetry
import Spooled.Plan.Retention
import Spooled.Auth.KeyEdit
import Spooled.Auth.KeyCache
import Spooled.Auth.KeyResolve
import Spooled.Auth.KeyBudget
import Spooled.Auth.Logout
import Spooled.Stream.Credential
import Spooled.Account.Address
import Spooled.Account.EmailLogin
import Spooled.Billing.Claim
import Spooled.Billing.Downgrade
import Spooled.Account.Lockout
import Spooled.Cap.Switches
import Spooled.Cap.Workers
import Spooled.Cap.Queues
import Spooled.Queue.Pause
import Spooled.Cron.Repeat
import Spooled.Cron.Stored
import Spooled.Billing.Order
import Spooled.Edge.ClientIp
import Spooled.Edge.WebhookUrl
import Spooled.Webhook.Queue
import Spooled.Webhook.Retry
import Spooled.Rate.RetryAfter
