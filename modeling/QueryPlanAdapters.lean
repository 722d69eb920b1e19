import QueryPlanAdapters.Convex.Agreement
import QueryPlanAdapters.Convex.Unrolling
import QueryPlanAdapters.SpringData.Agreement
import QueryPlanAdapters.Go.Hierarchies
import QueryPlanAdapters.Go.Lookup
import QueryPlanAdapters.Go.NullOperands
import QueryPlanAdapters.Go.Folding
import QueryPlanAdapters.Convex.Selection
import QueryPlanAdapters.Convex.Durations
import QueryPlanAdapters.Go.Overloads
import QueryPlanAdapters.Go.TemporalAgreement
import QueryPlanAdapters.Convex.IntArithmetic
import QueryPlanAdapters.Chroma.TimestampTexts
import QueryPlanAdapters.Hierarchies
import QueryPlanAdapters.Prisma.NullOperands
import QueryPlanAdapters.SqlAlchemy.UpperAscii
import QueryPlanAdapters.SqlAlchemy.ShiftedInstants
import QueryPlanAdapters.Mongoose.Patterns
import QueryPlanAdapters.Drizzle.CheckedIntegers
import QueryPlanAdapters.ActiveRecord.TemporalComparisons
import QueryPlanAdapters.Drizzle.Timestamps
import QueryPlanAdapters.Drizzle.PlanIdentity
import QueryPlanAdapters.SpringData.IntComparison
import QueryPlanAdapters.SpringData.Hierarchies
import QueryPlanAdapters.SpringData.Timestamps
import QueryPlanAdapters.ActiveRecord.DoubleText
import QueryPlanAdapters.Drizzle.Conversion
import QueryPlanAdapters.Elasticsearch.Agreement
