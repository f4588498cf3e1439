import LazyPock.Auth.Lockout
import LazyPock.Auth.Setup
import LazyPock.Auth.SignUp
import LazyPock.Auth.TokenPurpose
import LazyPock.Backup.Accounting
import LazyPock.Backup.Documents
import LazyPock.Backup.Losses
import LazyPock.Backup.Restore
import LazyPock.Core.Timestamps
import LazyPock.Crons.Schedule
import LazyPock.Database.Redaction
import LazyPock.Database.Tls
import LazyPock.Files.Addresses
import LazyPock.Files.CollectionDelete
import LazyPock.Files.Dimensions
import LazyPock.Files.Edits
import LazyPock.Files.Limits
import LazyPock.Files.ListingParams
import LazyPock.Files.LocalStorage
import LazyPock.Files.Passes
import LazyPock.Files.S3
import LazyPock.Files.Thumbnails
import LazyPock.Hooks.App
import LazyPock.Hooks.Http
import LazyPock.Hooks.Service
import LazyPock.Jobs.Leases
import LazyPock.Logs.Redaction
import LazyPock.Net.Blocks
import LazyPock.Net.RateLimit
import LazyPock.Query.Credentials
import LazyPock.Query.Cursors
import LazyPock.Query.Faults
import LazyPock.Query.Listing
import LazyPock.Query.Printing
import LazyPock.Realtime.Resume
import LazyPock.Records.Arrays
import LazyPock.Records.Batch
import LazyPock.Records.WholeNumbers
import LazyPock.Rls.Agreement
import LazyPock.Schema.AuthEmail
import LazyPock.Schema.Declarations
import LazyPock.Schema.Migrations
import LazyPock.Schema.Patch
import LazyPock.Schema.Refusals
import LazyPock.Schema.ViewColumns
import LazyPock.Schema.ViewRelations
import LazyPock.Settings.InForce
import LazyPock.Settings.Secrecy
import LazyPock.Settings.Storage
