import Turnstile.Binary64.Arithmetic
import Turnstile.Binary64.Basic
import Turnstile.Binary64.Grid
import Turnstile.Bucket
import Turnstile.Decimal.Basic
import Turnstile.Decimal.Layout
import Turnstile.Decimal.Numeral
import Turnstile.Decimal.Shortest
import Turnstile.Duration.Basic
import Turnstile.Duration.Text
import Turnstile.Event
import Turnstile.Http.Address
import Turnstile.Http.CrossOrigin
import Turnstile.Http.Header
import Turnstile.Http.Reply
import Turnstile.Http.Request
import Turnstile.Http.Router
import Turnstile.Http.Uri
import Turnstile.Limiter.Basic
import Turnstile.Limiter.Clock
import Turnstile.Limiter.Ending
import Turnstile.Limiter.Run
import Turnstile.Registry
import Turnstile.Registry.Timed
import Turnstile.Registry.View
import Turnstile.Settings.Basic
import Turnstile.Settings.Document
import Turnstile.Settings.Fault
import Turnstile.Settings.Load
import Turnstile.Settings.Override
import Turnstile.Sweeper
import Turnstile.Text.Character
import Turnstile.Toml.Document
import Turnstile.Toml.Moment
import Turnstile.Toml.Number
import Turnstile.Toml.Quoted
import Turnstile.Toml.Space
import Turnstile.Toml.Table
import Turnstile.Toml.Value
import Turnstile.Proofs.Binary64.Rounding
import Turnstile.Proofs.Binary64.Nonneg
import Turnstile.Proofs.Binary64.Dyadic
import Turnstile.Proofs.Bucket.Sound
import Turnstile.Proofs.Duration.Seconds
import Turnstile.Proofs.Account
import Turnstile.Proofs.Bucket.Accuracy
import Turnstile.Proofs.Bucket.Exact
import Turnstile.Proofs.Registry.History
import Turnstile.Proofs.Registry.Invariant
import Turnstile.Proofs.Registry.Lone
import Turnstile.Proofs.Registry.Tracked
import Turnstile.Proofs.Registry.Accuracy
import Turnstile.Proofs.Registry.Padding
import Turnstile.Proofs.Bucket.Credit
import Turnstile.Proofs.Registry.Textbook
import Turnstile.Proofs.Registry.Crowd
import Turnstile.Proofs.Bucket.Interval
import Turnstile.Http.Run
import Turnstile.Proofs.Limiter.Passage
import Turnstile.Proofs.Limiter.CatchUp
import Turnstile.Proofs.Limiter.Calls
import Turnstile.Proofs.Limiter.Lifecycle
import Turnstile.Proofs.Limiter.Join
import Turnstile.Proofs.Limiter.Reclaim
import Turnstile.Proofs.Limiter.Spans
import Turnstile.Proofs.Limiter.Rhythm
import Turnstile.Proofs.Registry.Patience
import Turnstile.Proofs.Http.Limited
import Turnstile.Proofs.Http.Retry
import Turnstile.Proofs.Limiter.Disabled
import Turnstile.Proofs.Http.Layers
import Turnstile.Proofs.Http.Origins
import Turnstile.Proofs.Http.Charging
import Turnstile.Proofs.Text.Runs
import Turnstile.Proofs.Decimal.Nearest
import Turnstile.Proofs.Duration.Grammar
import Turnstile.Proofs.Duration.Total
import Turnstile.Proofs.Toml.Entries
import Turnstile.Proofs.Toml.Tidy
import Turnstile.Proofs.Settings.Fields
import Turnstile.Proofs.Settings.Overrides
import Turnstile.Proofs.Settings.Layers
import Turnstile.Proofs.Text.Digits
import Turnstile.Proofs.Duration.Whole
import Turnstile.Proofs.Decimal.Exact
import Turnstile.Proofs.Toml.Steps
import Turnstile.Proofs.Toml.Strings
import Turnstile.Proofs.Toml.Numbers
import Turnstile.Proofs.Toml.Written
import Turnstile.Proofs.Toml.Grammar
import Turnstile.Proofs.Settings.Layout
import Turnstile.Proofs.Settings.Lines
import Turnstile.Proofs.Settings.Members
import Turnstile.Proofs.Settings.Told
import Turnstile.Proofs.Settings.Bare
import Turnstile.Proofs.Settings.Distinct
import Turnstile.Proofs.Settings.RoundTrip
import Turnstile.Proofs.Duration.Precise
import Turnstile.Proofs.Duration.Range
import Turnstile.Proofs.Bucket.Rate
import Turnstile.Proofs.Registry.Return
import Turnstile.Proofs.Registry.Removal
import Turnstile.Proofs.Http.Denial
import Turnstile.Proofs.Settings.Numerals
import Turnstile.Proofs.Settings.Environment
import Turnstile.Proofs.Registry.Waiting
import Turnstile.Proofs.Http.AddressText
import Turnstile.Proofs.Http.Identity
