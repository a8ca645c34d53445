import S3rm.Selection
import S3rm.MaxDelete
import S3rm.Api
import S3rm.Deleter.Fallback
import S3rm.Locking
import S3rm.Failures
import S3rm.Warnings
import S3rm.Progress
import S3rm.Batching
import S3rm.CompletionEvents
import S3rm.Accounts
import S3rm.Chain
import S3rm.FormatLaws
import S3rm.Modes
import S3rm.Target
import S3rm.AccessKeys
import S3rm.Indicator
import S3rm.Conc.Obeys
import S3rm.ListingLimits
import S3rm.Pagination
import S3rm.ListingComplete
import S3rm.RateLimit
import S3rm.ParallelListing
import S3rm.Preview
import S3rm.Conc.Settling
import S3rm.Liveness
import S3rm.Backlog
import S3rm.Errors
import S3rm.ExitStatus
import S3rm.Aftermath
