import ArmatureTenancy.Foundations.Programs
import ArmatureTenancy.Foundations.Interleaving
import ArmatureTenancy.Foundations.Serial
import ArmatureTenancy.Foundations.Serializability
import ArmatureTenancy.Foundations.Progress
import ArmatureTenancy.Foundations.Disciplines
import ArmatureTenancy.Foundations.Phases
import ArmatureTenancy.Foundations.Codes
import ArmatureTenancy.Foundations.Maps
import ArmatureTenancy.Foundations.Codecs
import ArmatureTenancy.Foundations.Texts
import ArmatureTenancy.Foundations.Templates
import ArmatureTenancy.Foundations.Paging
import ArmatureTenancy.Core.Json
import ArmatureTenancy.Core.Tenant
import ArmatureTenancy.Core.Construction
import ArmatureTenancy.Core.Serialization
import ArmatureTenancy.Cache.TenantCache
import ArmatureTenancy.Cache.Isolation
import ArmatureTenancy.Cache.PrivateMaps
import ArmatureTenancy.Cache.CacheKeyBuilder
import ArmatureTenancy.Cache.Clearing
import ArmatureTenancy.Cache.TypedValues
import ArmatureTenancy.Schema.SchemaManager
import ArmatureTenancy.Schema.Identifiers
import ArmatureTenancy.Schema.Grammar
import ArmatureTenancy.Schema.TenantQuery
import ArmatureTenancy.Schema.GeneratedNames
import ArmatureTenancy.Database.TenantDatabaseManager
import ArmatureTenancy.Database.Guards
import ArmatureTenancy.Database.SingleFlight
import ArmatureTenancy.Database.Invalidation
import ArmatureTenancy.Database.Progress
import ArmatureTenancy.Database.NamePatterns
import ArmatureTenancy.Database.Isolation
import ArmatureTenancy.Database.Leaks
import ArmatureTenancy.Request.Http
import ArmatureTenancy.Request.Middleware
import ArmatureTenancy.Request.Mediation
import ArmatureTenancy.Request.Serving
import ArmatureTenancy.Request.Pipeline
import ArmatureTenancy.Request.Spoofing
import ArmatureTenancy.Request.Resolver
import ArmatureTenancy.Request.Subdomains
import ArmatureTenancy.Request.Claims
import ArmatureTenancy.Request.Resolution
import ArmatureTenancy.Management.Records
import ArmatureTenancy.Management.Serialization
import ArmatureTenancy.Management.Store
import ArmatureTenancy.Management.Manager
import ArmatureTenancy.Management.Unfolding
import ArmatureTenancy.Management.Effects
import ArmatureTenancy.Management.Provisioning
import ArmatureTenancy.Management.Admission
import ArmatureTenancy.Management.Rollback
import ArmatureTenancy.Management.Identity
import ArmatureTenancy.Management.SlugUniqueness
import ArmatureTenancy.Management.Finality
import ArmatureTenancy.Management.LostUpdates
import ArmatureTenancy.Management.Lifecycle
import ArmatureTenancy.Management.Queries
import ArmatureTenancy.Management.Limits
import ArmatureTenancy.Management.SlugLookup
import ArmatureTenancy.Management.Listing
import ArmatureTenancy.Management.Paging
import ArmatureTenancy.Management.MovingPages
import ArmatureTenancy.Management.Failures
import ArmatureTenancy.Management.Isolation
import ArmatureTenancy.Management.TenantRuns
import ArmatureTenancy.Management.Orphans
import ArmatureTenancy.Management.RecordChains
