import Quinn.Ddl.Resumption

/-! `SCHEMA_SQL` of `db/schema.py`. -/

namespace Quinn.Migrations

open Ddl

inductive Value
  | null
  | integer (n : Int)
  | text (s : String)
  deriving DecidableEq

def schemaSql : List (Stmt Value) :=
  [.createTable "org_state" ["id", "name", "status", "ceo_worker_id", "started_at", "stopped_at",
     "project_root", "created_at", "updated_at"],
   .createTable "teams" ["id", "name", "parent_team_id", "lead_id", "channel_id", "created_at",
     "template_type", "ttl_hours", "ttl_started_at", "status"],
   .createIndex "idx_teams_parent" "teams" ["parent_team_id"],
   .createIndex "idx_teams_lead" "teams" ["lead_id"],
   .createTable "workers" ["id", "name", "role", "team_id", "manager_id", "status", "skills", "cost",
     "hiring_authority_scope", "delegated_budget", "max_reports", "delegation_version", "delegated_by",
     "delegation_expires_at", "offboarding_ask_bead_id", "preferred_provider", "tools", "created_at",
     "updated_at"],
   .createIndex "idx_workers_team" "workers" ["team_id"],
   .createIndex "idx_workers_status" "workers" ["status"],
   .createIndex "idx_workers_manager" "workers" ["manager_id"],
   .createIndex "idx_workers_delegated_by" "workers" ["delegated_by"],
   .createIndex "idx_workers_delegation_expires" "workers" ["delegation_expires_at"],
   .createTable "worker_state" ["worker_id", "runtime_status", "current_task_id", "pid", "started_at",
     "last_activity", "tasks_completed", "tasks_failed", "updated_at"],
   .createIndex "idx_worker_state_status" "worker_state" ["runtime_status"],
   .createTable "sessions" ["id", "worker_id", "provider", "model", "command", "args", "working_directory",
     "tmux_session_name", "pid", "state", "state_version", "started_at", "stopped_at", "last_activity",
     "created_at", "updated_at"],
   .createIndex "idx_sessions_worker" "sessions" ["worker_id"],
   .createIndex "idx_sessions_state" "sessions" ["state"],
   .createIndex "idx_sessions_last_activity" "sessions" ["last_activity"],
   .createTable "channels" ["id", "name", "type", "team_id", "created_at"],
   .createIndex "idx_channels_type" "channels" ["type"],
   .createIndex "idx_channels_team" "channels" ["team_id"],
   .createTable "channel_subscriptions" ["channel_id", "worker_id", "subscribed_at"],
   .createIndex "idx_channel_subs_worker" "channel_subscriptions" ["worker_id"],
   .createTable "messages" ["id", "channel_id", "thread_id", "parent_id", "from_worker_id", "content",
     "priority", "time_sensitivity", "created_at"],
   .createIndex "idx_messages_channel" "messages" ["channel_id"],
   .createIndex "idx_messages_thread" "messages" ["thread_id"],
   .createIndex "idx_messages_from_worker" "messages" ["from_worker_id"],
   .createIndex "idx_messages_created_at" "messages" ["created_at"],
   .createIndex "idx_messages_priority" "messages" ["priority"],
   .createIndex "idx_messages_parent" "messages" ["parent_id"],
   .createTable "message_refs" ["message_id", "ref_type", "ref_id"],
   .createTable "config" ["key", "value"],
   .createTable "messages_fts" ["content"],
   .createTrigger "messages_ai" "messages",
   .createTrigger "messages_ad" "messages",
   .createTrigger "messages_au" "messages",
   .createTable "team_members" ["team_id", "worker_id", "role", "joined_at"],
   .createIndex "idx_team_members_worker" "team_members" ["worker_id"],
   .createTable "permissions" ["id", "bead_id", "grantee_type", "grantee_id", "level", "granted_by",
     "granted_at"],
   .createIndex "idx_permissions_bead" "permissions" ["bead_id"],
   .createIndex "idx_permissions_grantee" "permissions" ["grantee_type", "grantee_id"],
   .createTable "effective_permissions" ["worker_id", "bead_id", "level", "computed_at"],
   .createIndex "idx_effective_perm_level" "effective_permissions" ["level"],
   .createTable "permission_audit" ["id", "action", "bead_id", "worker_id", "level", "details",
     "created_at"],
   .createIndex "idx_perm_audit_bead" "permission_audit" ["bead_id"],
   .createIndex "idx_perm_audit_worker" "permission_audit" ["worker_id"],
   .createIndex "idx_perm_audit_action" "permission_audit" ["action"],
   .createIndex "idx_perm_audit_time" "permission_audit" ["created_at"],
   .createTable "notification_beads" ["id", "worker_id", "message_id", "channel_id", "status", "priority",
     "created_at", "read_at", "actioned_at", "closed_at", "expires_at"],
   .createIndex "idx_notif_beads_worker" "notification_beads" ["worker_id"],
   .createIndex "idx_notif_beads_status" "notification_beads" ["status"],
   .createIndex "idx_notif_beads_worker_status" "notification_beads" ["worker_id", "status"],
   .createIndex "idx_notif_beads_priority" "notification_beads" ["priority"],
   .createIndex "idx_notif_beads_closed_at" "notification_beads" ["closed_at"],
   .createIndex "idx_notif_beads_expires_at" "notification_beads" ["expires_at"],
   .createIndex "idx_notif_beads_message" "notification_beads" ["message_id"],
   .createIndex "idx_notif_beads_channel" "notification_beads" ["channel_id"],
   .createTable "budget_pools" ["id", "name", "total_credits", "period_start", "period_end", "created_at",
     "updated_at"],
   .createTable "budget_allocations" ["id", "worker_id", "source_worker_id", "pool_id", "allocated_credits",
     "spent_credits", "reserved_credits", "period_start", "period_end", "can_delegate", "delegation_limit",
     "created_at", "updated_at"],
   .createIndex "idx_budget_allocations_worker" "budget_allocations" ["worker_id"],
   .createIndex "idx_budget_allocations_source" "budget_allocations" ["source_worker_id"],
   .createIndex "idx_budget_allocations_period" "budget_allocations" ["period_start", "period_end"],
   .createIndex "idx_budget_allocations_pool" "budget_allocations" ["pool_id"],
   .createTable "budget_transactions" ["id", "allocation_id", "worker_id", "type", "amount", "provider",
     "model", "input_tokens", "output_tokens", "reference_type", "reference_id", "description", "metadata",
     "created_at"],
   .createIndex "idx_budget_transactions_allocation" "budget_transactions" ["allocation_id"],
   .createIndex "idx_budget_transactions_worker" "budget_transactions" ["worker_id"],
   .createIndex "idx_budget_transactions_type" "budget_transactions" ["type"],
   .createIndex "idx_budget_transactions_created" "budget_transactions" ["created_at"],
   .createIndex "idx_budget_transactions_provider" "budget_transactions" ["provider", "model"],
   .createTable "budget_balances" ["allocation_id", "worker_id", "allocated", "spent", "reserved",
     "available", "delegated", "period_start", "period_end", "updated_at"],
   .createIndex "idx_budget_balances_worker" "budget_balances" ["worker_id"],
   .createIndex "idx_budget_balances_available" "budget_balances" ["available"],
   .createTrigger "update_budget_balance_on_transaction" "budget_transactions",
   .createTable "events" ["id", "event_type", "entity_type", "entity_id", "payload", "actor_id",
     "created_at"],
   .createIndex "idx_events_type" "events" ["event_type"],
   .createIndex "idx_events_entity" "events" ["entity_type", "entity_id"],
   .createIndex "idx_events_actor" "events" ["actor_id"],
   .createIndex "idx_events_created_at" "events" ["created_at"],
   .createTable "okrs" ["id", "title", "description", "owner_worker_id", "parent_okr_id", "status",
     "key_results", "due_date", "created_at", "updated_at"],
   .createIndex "idx_okrs_owner" "okrs" ["owner_worker_id"],
   .createIndex "idx_okrs_parent" "okrs" ["parent_okr_id"],
   .createIndex "idx_okrs_status" "okrs" ["status"],
   .createTable "work_okr_links" ["work_id", "okr_id", "link_type", "created_at"],
   .createIndex "idx_work_okr_links_okr" "work_okr_links" ["okr_id"],
   .createIndex "idx_work_okr_links_work" "work_okr_links" ["work_id"],
   .createTable "escalations" ["id", "issue_id", "worker_id", "escalated_to_id", "reason", "state",
     "created_at", "resolved_at"],
   .createIndex "idx_escalations_issue" "escalations" ["issue_id"],
   .createIndex "idx_escalations_worker" "escalations" ["worker_id"],
   .createIndex "idx_escalations_escalated_to" "escalations" ["escalated_to_id"],
   .createIndex "idx_escalations_state" "escalations" ["state"],
   .createIndex "idx_escalations_created_at" "escalations" ["created_at"],
   .createTable "lifecycle_configs" ["bead_type", "config", "created_at", "updated_at"],
   .createTable "delegation_grants" ["id", "delegator_id", "delegate_id", "scope", "budget_amount",
     "granted_at", "expires_at", "revoked_at", "revoked_by", "revoke_reason", "granted_by_cli_user",
     "metadata"],
   .createIndex "idx_delegation_grants_delegator" "delegation_grants" ["delegator_id"],
   .createIndex "idx_delegation_grants_delegate" "delegation_grants" ["delegate_id"],
   .createIndex "idx_delegation_grants_active" "delegation_grants" ["revoked_at"],
   .createIndex "idx_delegation_grants_expires" "delegation_grants" ["expires_at", "revoked_at"],
   .createTable "delegation_audit" ["id", "event_type", "delegator_id", "delegate_id",
     "delegation_grant_id", "scope_before", "scope_after", "budget_before", "budget_after", "performed_by",
     "performed_by_cli_user", "reason", "timestamp"],
   .createIndex "idx_delegation_audit_delegate" "delegation_audit" ["delegate_id"],
   .createIndex "idx_delegation_audit_delegator" "delegation_audit" ["delegator_id"],
   .createIndex "idx_delegation_audit_timestamp" "delegation_audit" ["timestamp"],
   .createIndex "idx_delegation_audit_event_type" "delegation_audit" ["event_type"],
   .createIndex "idx_delegation_audit_grant" "delegation_audit" ["delegation_grant_id"],
   .createTrigger "prevent_delegation_audit_modification" "delegation_audit",
   .createTrigger "prevent_delegation_audit_deletion" "delegation_audit",
   .createTrigger "revoke_delegations_on_termination" "workers",
   .createTrigger "log_delegation_grant" "delegation_grants",
   .createTrigger "log_delegation_revoke" "delegation_grants",
   .createTable "worker_escalation_state" ["worker_id", "current_state", "last_activity_at", "idle_since",
     "escalation_created_at", "escalation_id", "escalation_target_id", "updated_at"],
   .createIndex "idx_escalation_state_worker" "worker_escalation_state" ["worker_id"],
   .createIndex "idx_escalation_state_status" "worker_escalation_state" ["current_state"],
   .createIndex "idx_escalation_state_idle_since" "worker_escalation_state" ["idle_since"],
   .createTable "status_changes" ["id", "entity_type", "entity_id", "old_status", "new_status",
     "changed_at"],
   .createIndex "idx_status_changes_entity" "status_changes" ["entity_type", "entity_id"],
   .createIndex "idx_status_changes_changed_at" "status_changes" ["changed_at"],
   .createIndex "idx_status_changes_id_asc" "status_changes" ["id"],
   .createTable "status_change_cursors" ["client_id", "last_change_id", "updated_at"],
   .createTrigger "log_worker_status_change" "workers",
   .createTrigger "log_worker_runtime_status_change" "worker_state",
   .createTrigger "log_session_state_change" "sessions",
   .createTable "worker_resume_states" ["id", "worker_id", "current_task_id", "current_task_context",
     "last_activity_at", "tasks_completed", "tasks_failed", "session_provider", "session_model",
     "working_directory", "wrapup_requested_at", "wrapup_acked_at", "ack_message", "created_at", "expires_at",
     "consumed_at"],
   .createIndex "idx_worker_resume_worker" "worker_resume_states" ["worker_id"],
   .createIndex "idx_worker_resume_expires" "worker_resume_states" ["expires_at", "consumed_at"],
   .createIndex "idx_worker_resume_wrapup" "worker_resume_states" ["wrapup_requested_at",
     "wrapup_acked_at"],
   .createTable "activity_signals" ["id", "worker_id", "activity_type", "signal_strength", "metadata",
     "created_at"],
   .createIndex "idx_activity_signals_worker" "activity_signals" ["worker_id", "created_at"],
   .createIndex "idx_activity_signals_recent" "activity_signals" ["created_at"]]

end Quinn.Migrations

/-! The registry of `migrate_database` of `db/migrations.py`. -/

namespace Quinn.Migrations

open Ddl

def migrations : Nat → List (Stmt Value)
  | 2 =>
    [.createTable "team_members" ["team_id", "worker_id", "role", "joined_at"],
     .createIndex "idx_team_members_worker" "team_members" ["worker_id"]]
  | 3 =>
    [.createTable "permissions" ["id", "bead_id", "grantee_type", "grantee_id", "level", "granted_by",
       "granted_at"],
     .createIndex "idx_permissions_bead" "permissions" ["bead_id"],
     .createIndex "idx_permissions_grantee" "permissions" ["grantee_type", "grantee_id"],
     .createTable "effective_permissions" ["worker_id", "bead_id", "level", "computed_at"],
     .createIndex "idx_effective_perm_level" "effective_permissions" ["level"],
     .createTable "permission_audit" ["id", "action", "bead_id", "worker_id", "level", "details",
       "created_at"],
     .createIndex "idx_perm_audit_bead" "permission_audit" ["bead_id"],
     .createIndex "idx_perm_audit_worker" "permission_audit" ["worker_id"],
     .createIndex "idx_perm_audit_action" "permission_audit" ["action"],
     .createIndex "idx_perm_audit_time" "permission_audit" ["created_at"]]
  | 4 =>
    [.createTable "notification_beads" ["id", "worker_id", "message_id", "channel_id", "status", "priority",
       "created_at", "read_at", "actioned_at", "closed_at"],
     .createIndex "idx_notif_beads_worker" "notification_beads" ["worker_id"],
     .createIndex "idx_notif_beads_status" "notification_beads" ["status"],
     .createIndex "idx_notif_beads_worker_status" "notification_beads" ["worker_id", "status"],
     .createIndex "idx_notif_beads_priority" "notification_beads" ["priority"],
     .createIndex "idx_notif_beads_closed_at" "notification_beads" ["closed_at"]]
  | 5 =>
    [.createTable "budget_pools" ["id", "name", "total_credits", "period_start", "period_end", "created_at",
       "updated_at"],
     .createTable "budget_allocations" ["id", "worker_id", "source_worker_id", "pool_id",
       "allocated_credits", "spent_credits", "reserved_credits", "period_start", "period_end", "can_delegate",
       "delegation_limit", "created_at", "updated_at"],
     .createIndex "idx_budget_allocations_worker" "budget_allocations" ["worker_id"],
     .createIndex "idx_budget_allocations_source" "budget_allocations" ["source_worker_id"],
     .createIndex "idx_budget_allocations_period" "budget_allocations" ["period_start", "period_end"],
     .createTable "budget_transactions" ["id", "allocation_id", "worker_id", "type", "amount", "provider",
       "model", "input_tokens", "output_tokens", "reference_type", "reference_id", "description", "metadata",
       "created_at"],
     .createIndex "idx_budget_transactions_allocation" "budget_transactions" ["allocation_id"],
     .createIndex "idx_budget_transactions_worker" "budget_transactions" ["worker_id"],
     .createIndex "idx_budget_transactions_type" "budget_transactions" ["type"],
     .createIndex "idx_budget_transactions_created" "budget_transactions" ["created_at"],
     .createIndex "idx_budget_transactions_provider" "budget_transactions" ["provider", "model"],
     .createTable "budget_balances" ["allocation_id", "worker_id", "allocated", "spent", "reserved",
       "available", "delegated", "period_start", "period_end", "updated_at"],
     .createIndex "idx_budget_balances_worker" "budget_balances" ["worker_id"],
     .createIndex "idx_budget_balances_available" "budget_balances" ["available"],
     .createTrigger "update_budget_balance_on_transaction" "budget_transactions"]
  | 6 =>
    [.createTable "events" ["id", "event_type", "entity_type", "entity_id", "payload", "actor_id",
       "created_at"],
     .createIndex "idx_events_type" "events" ["event_type"],
     .createIndex "idx_events_entity" "events" ["entity_type", "entity_id"],
     .createIndex "idx_events_actor" "events" ["actor_id"],
     .createIndex "idx_events_created_at" "events" ["created_at"]]
  | 7 =>
    [.addColumn "workers" "hiring_authority_scope" .null,
     .addColumn "workers" "delegated_budget" (.integer 0),
     .addColumn "workers" "max_reports" (.integer 10)]
  | 8 =>
    [.addColumn "notification_beads" "expires_at" .null,
     .createIndex "idx_notif_beads_expires_at" "notification_beads" ["expires_at"]]
  | 9 =>
    [.createTable "okrs" ["id", "title", "description", "owner_worker_id", "parent_okr_id", "status",
       "created_at", "updated_at"],
     .createIndex "idx_okrs_owner" "okrs" ["owner_worker_id"],
     .createIndex "idx_okrs_parent" "okrs" ["parent_okr_id"],
     .createIndex "idx_okrs_status" "okrs" ["status"],
     .createTable "work_okr_links" ["work_id", "okr_id", "link_type", "created_at"],
     .createIndex "idx_work_okr_links_okr" "work_okr_links" ["okr_id"],
     .createIndex "idx_work_okr_links_work" "work_okr_links" ["work_id"]]
  | 10 =>
    [.addColumn "workers" "offboarding_ask_bead_id" .null]
  | 11 =>
    [.createTable "sessions" ["id", "worker_id", "provider", "command", "args", "working_directory",
       "tmux_session_name", "pid", "state", "started_at", "stopped_at", "created_at", "updated_at"],
     .createIndex "idx_sessions_worker" "sessions" ["worker_id"],
     .createIndex "idx_sessions_state" "sessions" ["state"]]
  | 12 =>
    [.createIndex "idx_messages_parent" "messages" ["parent_id"],
     .createIndex "idx_channel_subs_worker" "channel_subscriptions" ["worker_id"],
     .createIndex "idx_notif_beads_message" "notification_beads" ["message_id"],
     .createIndex "idx_notif_beads_channel" "notification_beads" ["channel_id"],
     .createIndex "idx_budget_allocations_pool" "budget_allocations" ["pool_id"]]
  | 13 =>
    [.addColumn "sessions" "state_version" (.integer 0)]
  | 14 =>
    [.createTable "escalations" ["id", "issue_id", "worker_id", "escalated_to_id", "reason", "state",
       "created_at", "resolved_at"],
     .createIndex "idx_escalations_issue" "escalations" ["issue_id"],
     .createIndex "idx_escalations_worker" "escalations" ["worker_id"],
     .createIndex "idx_escalations_escalated_to" "escalations" ["escalated_to_id"],
     .createIndex "idx_escalations_state" "escalations" ["state"],
     .createIndex "idx_escalations_created_at" "escalations" ["created_at"]]
  | 15 =>
    [.addColumn "okrs" "key_results" .null,
     .addColumn "okrs" "due_date" .null]
  | 16 =>
    [.createTable "lifecycle_configs" ["bead_type", "config", "created_at", "updated_at"]]
  | 17 =>
    [.addColumn "workers" "delegation_version" (.integer 0),
     .addColumn "workers" "delegated_by" .null,
     .addColumn "workers" "delegation_expires_at" .null,
     .createTable "delegation_grants" ["id", "delegator_id", "delegate_id", "scope", "budget_amount",
       "granted_at", "expires_at", "revoked_at", "revoked_by", "revoke_reason", "granted_by_cli_user",
       "metadata"],
     .createIndex "idx_delegation_grants_delegator" "delegation_grants" ["delegator_id"],
     .createIndex "idx_delegation_grants_delegate" "delegation_grants" ["delegate_id"],
     .createIndex "idx_delegation_grants_active" "delegation_grants" ["revoked_at"],
     .createIndex "idx_delegation_grants_expires" "delegation_grants" ["expires_at", "revoked_at"],
     .createTable "delegation_audit" ["id", "event_type", "delegator_id", "delegate_id",
       "delegation_grant_id", "scope_before", "scope_after", "budget_before", "budget_after", "performed_by",
       "performed_by_cli_user", "reason", "timestamp"],
     .createIndex "idx_delegation_audit_delegate" "delegation_audit" ["delegate_id"],
     .createIndex "idx_delegation_audit_delegator" "delegation_audit" ["delegator_id"],
     .createIndex "idx_delegation_audit_timestamp" "delegation_audit" ["timestamp"],
     .createIndex "idx_delegation_audit_event_type" "delegation_audit" ["event_type"],
     .createIndex "idx_delegation_audit_grant" "delegation_audit" ["delegation_grant_id"],
     .createIndex "idx_workers_delegated_by" "workers" ["delegated_by"],
     .createIndex "idx_workers_delegation_expires" "workers" ["delegation_expires_at"],
     .createTrigger "prevent_delegation_audit_modification" "delegation_audit",
     .createTrigger "prevent_delegation_audit_deletion" "delegation_audit",
     .createTrigger "revoke_delegations_on_termination" "workers",
     .createTrigger "log_delegation_grant" "delegation_grants",
     .createTrigger "log_delegation_revoke" "delegation_grants"]
  | 18 =>
    [.addColumn "org_state" "name" (.text "My Organization")]
  | 19 =>
    [.createTable "worker_escalation_state" ["worker_id", "current_state", "last_activity_at", "idle_since",
       "escalation_created_at", "escalation_id", "escalation_target_id", "updated_at"],
     .createIndex "idx_escalation_state_worker" "worker_escalation_state" ["worker_id"],
     .createIndex "idx_escalation_state_status" "worker_escalation_state" ["current_state"],
     .createIndex "idx_escalation_state_idle_since" "worker_escalation_state" ["idle_since"]]
  | 20 =>
    [.addColumn "workers" "preferred_provider" .null]
  | 21 =>
    [.createTable "status_changes" ["id", "entity_type", "entity_id", "old_status", "new_status",
       "changed_at"],
     .createIndex "idx_status_changes_entity" "status_changes" ["entity_type", "entity_id"],
     .createIndex "idx_status_changes_changed_at" "status_changes" ["changed_at"],
     .createIndex "idx_status_changes_id_asc" "status_changes" ["id"],
     .createTable "status_change_cursors" ["client_id", "last_change_id", "updated_at"],
     .createTrigger "log_worker_status_change" "workers",
     .createTrigger "log_worker_runtime_status_change" "worker_state",
     .createTrigger "log_session_state_change" "sessions"]
  | 22 =>
    [.createTable "worker_resume_states" ["id", "worker_id", "current_task_id", "current_task_context",
       "last_activity_at", "tasks_completed", "tasks_failed", "session_provider", "session_model",
       "working_directory", "wrapup_requested_at", "wrapup_acked_at", "ack_message", "created_at",
       "expires_at", "consumed_at"],
     .createIndex "idx_worker_resume_worker" "worker_resume_states" ["worker_id"],
     .createIndex "idx_worker_resume_expires" "worker_resume_states" ["expires_at", "consumed_at"],
     .createIndex "idx_worker_resume_wrapup" "worker_resume_states" ["wrapup_requested_at",
       "wrapup_acked_at"]]
  | 23 =>
    [.createTable "activity_signals" ["id", "worker_id", "activity_type", "signal_strength", "metadata",
       "created_at"],
     .createIndex "idx_activity_signals_worker" "activity_signals" ["worker_id", "created_at"],
     .createIndex "idx_activity_signals_recent" "activity_signals" ["created_at"]]
  | 24 =>
    [.addColumn "teams" "template_type" .null,
     .addColumn "teams" "ttl_hours" .null,
     .addColumn "teams" "ttl_started_at" .null,
     .addColumn "teams" "status" (.text "active"),
     .createIndex "idx_teams_template_type" "teams" ["template_type"],
     .createIndex "idx_teams_status" "teams" ["status"]]
  | 25 =>
    [.addColumn "workers" "tools" .null]
  | _ => []

/-- `schema_version` is a row of `config`, and stands apart from its other rows. -/
structure Database where
  catalog : Catalog Value
  schemaVersion : Option Int

def dbSchemaVersion : Nat := 25

/-- What `init_database` creates. -/
def schema : Catalog Value := (({} : Catalog Value).run schemaSql).2

/-- The statements of every version after `fromVersion`, up to `toVersion`. -/
def pending (fromVersion : Int) (toVersion : Nat) : List (Stmt Value) :=
  ((List.range (toVersion + 1)).filter fun version : Nat => fromVersion < version).flatMap migrations

/-- Each statement that creates something commits by itself; the version is set at the end. -/
def migrateDatabase (db : Database) (fromVersion : Int) (toVersion : Nat) :
    Except OperationalError Unit × Database :=
  match db.catalog.run (pending fromVersion toVersion) with
  | (.ok (), catalog) => (.ok (), { catalog, schemaVersion := some toVersion })
  | (.error e, catalog) => (.error e, { db with catalog })

def openDatabase (db : Database) : Except OperationalError Unit × Database :=
  match db.schemaVersion with
  | none => (.ok (), db)
  | some storedVersion =>
    if storedVersion < dbSchemaVersion then migrateDatabase db storedVersion dbSchemaVersion
    else (.ok (), db)

end Quinn.Migrations
